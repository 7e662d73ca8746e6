import NameMigration.FileTree.Lookup
import NameMigration.Fault

/-!
The source files below a root. Directories are entered in the order of their names, a directory
before what is in it, and links are followed.
-/

namespace NameMigration

structure Walked where
  location : Location
  path : Path
  deriving DecidableEq, Repr

namespace FileTree

def walkedTo (base : Walked) (location : Location) : List Walked :=
  let names := (location.drop base.location.length).dropLast
  (List.range (names.length + 1)).reverse.map fun count =>
    ⟨base.location ++ names.take count, (names.take count).foldl Path.join base.path⟩

/-- The paths of the files inside the directory `base`. A link to a directory is walked through as if
the directory stood in its place, unless it is one of those being walked through, the nearest of
which is found first. Each link that is followed adds another directory to these, so `links` need
not be more than there are directories. -/
def filesInside (tree : FileTree) (root : Path) (links : Nat) (around : List Walked)
    (base : Walked) : Except Fault (List Path) := do
  let found ← (tree.inside base.location).mapM fun (location, entry) =>
    let path := (location.drop base.location.length).foldl Path.join base.path
    match entry with
    | .directory =>
        match path.fault? with
        | some fault => .error (.walk root path fault)
        | none => pure []
    | .file _ => pure [path]
    | .link _ =>
        match tree.locate path with
        | .error fault => .error (.walk root path fault)
        | .ok (target, .directory) =>
            let walked := walkedTo base location ++ around
            match walked.find? (·.location = target) with
            | some ancestor => .error (.walkLoop root path ancestor.path)
            | none =>
                match links with
                | 0 => pure []
                | links + 1 => tree.filesInside root links walked ⟨target, path⟩
        | .ok _ => pure [path]
  return found.flatten

def filesBelow (tree : FileTree) (root : Path) : Except Fault (List Path) :=
  match tree.locate root with
  | .error fault => .error (.walk root root fault)
  | .ok (location, .directory) =>
      tree.filesInside root (tree.entries.length + 1) [] ⟨location, root⟩
  | .ok _ => .ok [root]

def sourceFiles (tree : FileTree) (settings : Settings) (root : Path) :
    Except Fault (List Path) :=
  return (← tree.filesBelow root).filter settings.isSourceFile

end FileTree

end NameMigration
