import NameMigration.Fault
import NameMigration.FileTree.Change

/-!
Removal of what a migration does not need from the source root: the paths that the settings name, and
then, if asked for, the files that are directly in the root. What is not there is skipped.
-/

namespace NameMigration

structure Pruned where
  directories : Nat := 0
  files : Nat := 0
  deriving DecidableEq, Repr

namespace Pruned

def add (first second : Pruned) : Pruned :=
  ⟨first.directories + second.directories, first.files + second.files⟩

def total (removals : List Pruned) : Pruned :=
  removals.foldl add {}

end Pruned

def pruneFile (path : Path) : FileAction Fault Pruned := do
  (FileAction.changing (·.removeFile path)).within (.file .removing path)
  return { files := 1 }

def prunePath (path : Path) : FileAction Fault Pruned := do
  let tree ← get
  if tree.isDirectory path then
    (FileAction.removeTree path).within (.file .removing path)
    return { directories := 1 }
  else if tree.isFile path then pruneFile path
  else return {}

def FileTree.fileNames (tree : FileTree) (directory : Location) : List Text :=
  (tree.children directory).filterMap fun (name, entry) =>
    match entry with
    | .file _ => some name
    | _ => none

def pruneTopLevel (root : Path) : FileAction Fault Pruned := do
  match (← get).locate root with
  | .ok (location, .directory) =>
      let names := (← get).fileNames location
      return Pruned.total (← names.mapM fun name => pruneFile (root.join name))
  | _ => return {}

def prune (settings : Settings) : FileAction Fault Pruned := do
  let named ← settings.prune.mapM fun path => prunePath (settings.sourceDir.join path)
  let top ← if settings.pruneTopLevelFiles then pruneTopLevel settings.sourceDir else pure {}
  return (Pruned.total named).add top

end NameMigration
