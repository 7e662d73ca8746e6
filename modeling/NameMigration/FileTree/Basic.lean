import NameMigration.Path
import NameMigration.Text.Utf8

/-!
A tree of files: directories, files with their content, and symbolic links. An entry is found by its
location, the names that lead to it from the root, and the root is always there. The entries stand in
the order of their locations, so a directory is followed by what is in it. One directory of the tree is
the home, which relative paths begin in.
-/

namespace NameMigration

abbrev Location := List Text

inductive FileEntry where
  | directory
  | file (content : Bytes)
  | link (target : Path)
  deriving DecidableEq, Repr

structure FileTree where
  entries : List (Location × FileEntry)
  home : Location := []
  ordered : Keyed.Increasing Prod.fst entries

namespace FileTree

def get? (tree : FileTree) (location : Location) : Option FileEntry :=
  if location = [] then some .directory
  else (tree.entries.find? (·.1 = location)).map (·.2)

def put (tree : FileTree) (location : Location) (entry : FileEntry) : FileTree :=
  { tree with
    entries := Keyed.put Prod.fst (location, entry) tree.entries
    ordered := tree.ordered.put _ }

def erase (tree : FileTree) (gone : Location → Bool) : FileTree :=
  { tree with
    entries := tree.entries.filter (!gone ·.1)
    ordered := tree.ordered.filter _ }

def ofHome (home : Location) : FileTree :=
  (List.range home.length).foldl (fun tree depth => tree.put (home.take (depth + 1)) .directory)
    { entries := [], home, ordered := .nil }

@[simp] theorem home_put (tree : FileTree) (location : Location) (entry : FileEntry) :
    (tree.put location entry).home = tree.home := rfl

@[simp] theorem home_erase (tree : FileTree) (gone : Location → Bool) :
    (tree.erase gone).home = tree.home := rfl

@[simp] theorem get?_root (tree : FileTree) : tree.get? [] = some .directory := rfl

theorem get?_put_self (tree : FileTree) {location : Location} (entry : FileEntry)
    (inside : location ≠ []) : (tree.put location entry).get? location = some entry := by
  simp [get?, put, inside, tree.ordered.find?_put]

theorem get?_put_of_ne (tree : FileTree) {location other : Location} (entry : FileEntry)
    (different : other ≠ location) : (tree.put location entry).get? other = tree.get? other := by
  simp [get?, put, tree.ordered.find?_put, different.symm]

theorem get?_erase_of_not (tree : FileTree) {gone : Location → Bool} {location : Location}
    (kept : gone location = false) : (tree.erase gone).get? location = tree.get? location := by
  simp only [get?, erase, List.find?_filter]
  split
  · rfl
  · congr 2
    funext entry
    by_cases same : entry.1 = location
    · simp [same, kept]
    · simp [same]

theorem get?_erase_of_gone (tree : FileTree) {gone : Location → Bool} {location : Location}
    (erased : gone location = true) (inside : location ≠ []) :
    (tree.erase gone).get? location = none := by
  simp only [get?, erase, inside, if_false, List.find?_filter, Option.map_eq_none_iff,
    List.find?_eq_none]
  intro entry _
  by_cases same : entry.1 = location
  · simp [same, erased]
  · simp [same]

def isInside (directory location : Location) : Bool :=
  directory.isPrefixOf location && location != directory

def inside (tree : FileTree) (directory : Location) : List (Location × FileEntry) :=
  tree.entries.filter (isInside directory ·.1)

def children (tree : FileTree) (directory : Location) : List (Text × FileEntry) :=
  (tree.inside directory).filterMap fun (location, entry) =>
    match location.drop directory.length with
    | [name] => some (name, entry)
    | _ => none

end FileTree

end NameMigration
