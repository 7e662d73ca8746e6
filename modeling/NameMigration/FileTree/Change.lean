import NameMigration.FileTree.Lookup

/-!
Changes to a tree of files. A single change either happens as a whole or leaves the tree alone; an
action is made of several changes, and those before the one that fails stay.
-/

namespace NameMigration

namespace FileTree

def writeFile (tree : FileTree) (path : Path) (content : Bytes) : Except FileFault FileTree := do
  match ← tree.spot path true with
  | .free location => return tree.put location (.file content)
  | .found location =>
      match tree.get? location with
      | some (.file _) => return tree.put location (.file content)
      | _ => throw .isDirectory

def createDirectory (tree : FileTree) (path : Path) : Except FileFault FileTree := do
  let directory ← tree.around path
  if Path.isUnnamed path.last then throw .alreadyExists
  else if (← tree.entryIn directory path.last).isSome then throw .alreadyExists
  else return tree.put (directory ++ [path.last]) .directory

def removeFile (tree : FileTree) (path : Path) : Except FileFault FileTree := do
  let directory ← tree.around path
  if Path.isUnnamed path.last then throw .isDirectory
  else
    match ← tree.entryIn directory path.last with
    | none => throw .notFound
    | some .directory => throw .isDirectory
    | some _ =>
        if path.getLast? = some '/' then throw .notDirectory
        else return tree.erase (· = directory ++ [path.last])

def removeDirectory (tree : FileTree) (path : Path) : Except FileFault FileTree := do
  let directory ← tree.around path
  if path.last = [] then throw .busy
  else if path.last = ['.'] then throw .invalidArgument
  else if path.last = ['.', '.'] then throw .notEmpty
  else
    match ← tree.entryIn directory path.last with
    | none => throw .notFound
    | some .directory =>
        if tree.inside (directory ++ [path.last]) = [] then
          return tree.erase (· = directory ++ [path.last])
        else throw .notEmpty
    | some _ => throw .notDirectory

end FileTree

abbrev FileAction (Problem : Type) (Outcome : Type) := EStateM Problem FileTree Outcome

namespace FileAction

def looking {Problem Outcome : Type} (look : FileTree → Except Problem Outcome) :
    FileAction Problem Outcome :=
  fun tree =>
    match look tree with
    | .ok outcome => .ok outcome tree
    | .error problem => .error problem tree

def changing {Problem : Type} (change : FileTree → Except Problem FileTree) :
    FileAction Problem Unit :=
  fun tree =>
    match change tree with
    | .ok changed => .ok () changed
    | .error problem => .error problem tree

def within {Problem Wider Outcome : Type} (action : FileAction Problem Outcome)
    (widen : Problem → Wider) : FileAction Wider Outcome :=
  fun tree =>
    match action tree with
    | .ok outcome changed => .ok outcome changed
    | .error problem changed => .error (widen problem) changed

/-- Creates the first of the directories and, before it, those of the others that are needed for
it. The others are the directories around it, nearest first. That one is there already is no
failure, and the empty path needs none. -/
def createEach : (path : Path) → (around : List Path) → FileAction FileFault Unit
  | path, around => fun tree =>
      if path = [] then .ok () tree
      else
        match tree.createDirectory path with
        | .ok changed => .ok () changed
        | .error .notFound =>
            match around with
            | [] => .error .nothingAbove tree
            | parent :: others =>
                match createEach parent others tree with
                | .error fault changed => .error fault changed
                | .ok _ changed =>
                    match changed.createDirectory path with
                    | .ok created => .ok () created
                    | .error fault =>
                        if changed.isDirectory path then .ok () changed else .error fault changed
        | .error fault => if tree.isDirectory path then .ok () tree else .error fault tree
  termination_by _ around => around.length

def createDirectories (path : Path) : FileAction FileFault Unit :=
  createEach path path.ancestors

def removeTree (path : Path) : FileAction FileFault Unit := fun tree =>
  match tree.findUnfollowed path with
  | .error fault => .error fault tree
  | .ok (.link _) => changing (·.removeFile path) tree
  | .ok _ =>
      match tree.locate path with
      | .error fault => .error fault tree
      | .ok (location, .directory) =>
          let emptied := tree.erase (FileTree.isInside location)
          match emptied.removeDirectory path with
          | .ok removed => .ok () removed
          | .error .notFound => .ok () emptied
          | .error fault => .error fault emptied
      | .ok _ => .error .notDirectory tree

end FileAction

end NameMigration
