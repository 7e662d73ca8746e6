import NameMigration.FileTree.Basic
import NameMigration.FileTree.Fault

/-!
Where a path leads in a tree of files. The steps of a path are taken one by one, from the root if the
path is absolute and else from the home of the tree; a link is replaced by the steps of its target, at
most forty times on one way. The root is its own parent. A home that has been removed is still open: one
can stay in it and leave it, but nothing is found or created in it.
-/

namespace NameMigration

namespace Path

/-- The names and dots between the slashes. A slash at the end is an empty last step. -/
def steps (path : Path) : List Text :=
  (path.splitOn '/').filter (· ≠ []) ++ (if path.getLast? = some '/' then [[]] else [])

def front (path : Path) : List Text :=
  (path.steps.filter (· ≠ [])).dropLast

/-- The last step, which is empty only if the path is nothing but slashes. -/
def last (path : Path) : Text :=
  (path.steps.filter (· ≠ [])).getLast?.getD []

def isUnnamed (step : Text) : Bool :=
  Parts.isSilent step || step = ['.', '.']

def fault? (path : Path) : Option FileFault :=
  if path.contains '\x00' then some .nullInPath
  else if path = [] then some .notFound
  else if 4096 ≤ path.utf8Length then some .nameTooLong
  else none

def start (path : Path) (directory : Location) : Location :=
  if path.isAbsolute then [] else directory

end Path

inductive Spot where
  | found (location : Location)
  | free (location : Location)
  deriving DecidableEq, Repr

namespace FileTree

def maxLinks : Nat := 40

def isOpen (tree : FileTree) (location : Location) : Bool :=
  location.isPrefixOf tree.home || tree.get? location = some .directory

def entryIn (tree : FileTree) (directory : Location) (name : Text) :
    Except FileFault (Option FileEntry) :=
  match tree.get? directory with
  | none => .error .notFound
  | some .directory =>
      if 255 < name.utf8Length then .error .nameTooLong
      else .ok (tree.get? (directory ++ [name]))
  | some _ => .error .notDirectory

/-- Where the steps lead from a location. Whoever wants to create a file cannot name it with a slash
at the end. -/
def walk (tree : FileTree) (creating : Bool) (links : Nat) (location : Location)
    (steps : List Text) : Except FileFault Spot :=
  match steps with
  | [] => .ok (.found location)
  | step :: rest =>
      if !tree.isOpen location then .error .notDirectory
      else if Path.Parts.isSilent step then tree.walk creating links location rest
      else if step = ['.', '.'] then tree.walk creating links location.dropLast rest
      else if creating ∧ rest = [[]] then .error .isDirectory
      else
        match tree.entryIn location step with
        | .error fault => .error fault
        | .ok none => if rest = [] then .ok (.free (location ++ [step])) else .error .notFound
        | .ok (some (.link target)) =>
            if links = 0 then .error .tooManyLinks
            else
              match target.fault? with
              | some fault => .error fault
              | none => tree.walk creating (links - 1) (target.start location) (target.steps ++ rest)
        | .ok (some _) => tree.walk creating links (location ++ [step]) rest
  termination_by (links, steps.length)

def spot (tree : FileTree) (path : Path) (creating : Bool := false) : Except FileFault Spot :=
  match path.fault? with
  | some fault => .error fault
  | none => tree.walk creating maxLinks (path.start tree.home) path.steps

/-- Where the path leads and what is there. Only a directory that has been removed is no entry. -/
def locate (tree : FileTree) (path : Path) : Except FileFault (Location × FileEntry) :=
  match tree.spot path with
  | .error fault => .error fault
  | .ok (.free _) => .error .notFound
  | .ok (.found location) => .ok (location, (tree.get? location).getD .directory)

def find (tree : FileTree) (path : Path) : Except FileFault FileEntry :=
  (tree.locate path).map (·.2)

def around (tree : FileTree) (path : Path) : Except FileFault Location := do
  if let some fault := path.fault? then throw fault
  match ← tree.walk false maxLinks (path.start tree.home) (path.front ++ [['.']]) with
  | .found directory => return directory
  | .free _ => throw .notFound

def findUnfollowed (tree : FileTree) (path : Path) : Except FileFault FileEntry := do
  let directory ← tree.around path
  if path.getLast? = some '/' ∨ Path.isUnnamed path.last then tree.find path
  else
    match ← tree.entryIn directory path.last with
    | some entry => return entry
    | none => throw .notFound

def isDirectory (tree : FileTree) (path : Path) : Bool :=
  match tree.find path with
  | .ok .directory => true
  | _ => false

def isFile (tree : FileTree) (path : Path) : Bool :=
  match tree.find path with
  | .ok (.file _) => true
  | _ => false

def leads (tree : FileTree) (path : Path) : Bool :=
  match tree.find path with
  | .ok _ => true
  | .error _ => false

end FileTree

namespace FileEntry

def content : FileEntry → Except FileFault Bytes
  | .file content => .ok content
  | .directory => .error .isDirectory
  | .link _ => .error .tooManyLinks

def text (entry : FileEntry) : Except FileFault Text := do
  match Utf8.decode? (← entry.content) with
  | some text => return text
  | none => throw .notText

end FileEntry

namespace FileTree

def readBytes (tree : FileTree) (path : Path) : Except FileFault Bytes := do
  (← tree.find path).content

def readText (tree : FileTree) (path : Path) : Except FileFault Text := do
  (← tree.find path).text

end FileTree

end NameMigration
