import NameMigration.Text.Basic

/-!
Class names as source code writes them, and the renaming of one class.
-/

namespace NameMigration

/-- A class name as source code writes it. The qualifier is the package with a trailing dot, or
empty for the default package; the name of a class inside another is `Outer.Inner`. -/
structure ClassName where
  qualifier : Text
  name : Text
  deriving DecidableEq, Repr

namespace ClassName

def qualified (className : ClassName) : Text :=
  className.qualifier ++ className.name

def nesting? (className : ClassName) : Option (Text × Text) :=
  match className.name.segments with
  | [outer, inner] => if outer = [] ∨ inner = [] then none else some (outer, inner)
  | _ => none

end ClassName

structure Rename where
  legacy : ClassName
  target : ClassName
  deriving DecidableEq, Repr

namespace Rename

abbrev key (rename : Rename) : Text :=
  rename.legacy.name

def isNested (rename : Rename) : Bool :=
  rename.target.name.contains '.'

end Rename

end NameMigration
