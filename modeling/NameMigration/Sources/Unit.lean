import NameMigration.Fault
import NameMigration.FileTree.Change
import NameMigration.Text.Lines

/-!
Source units: reading one from a file and writing the lines of one to a file.
-/

namespace NameMigration

structure SourceUnit where
  path : Path
  lines : List Text
  deriving DecidableEq, Repr

namespace SourceUnit

def read (tree : FileTree) (path : Path) : Except Fault SourceUnit :=
  match tree.readBytes path with
  | .ok content => .ok ⟨path, (Utf8.decodeLossy content).lines⟩
  | .error fault => .error (.file .reading path fault)

end SourceUnit

def createParent (path : Path) : FileAction Fault Unit := do
  if let some parent := path.parent? then
    (FileAction.createDirectories parent).within (.file .creating parent)

def writeLines (path : Path) (lines : List Text) : FileAction Fault Unit := do
  createParent path
  (FileAction.changing (·.writeFile path (Text.ofLines lines).utf8)).within (.file .creating path)

end NameMigration
