import NameMigration.Substitution.Rules
import NameMigration.Mapping.Rename

/-!
A place in a line, and what may be put there. The text to the left of the place is kept with its
nearest character first, so that what stands directly before the place is at its front.
-/

namespace NameMigration

open Text (isAlphabetic isNameChar)

def isStandalone (left right : Text) : Bool :=
  !left.head?.any isAlphabetic && !right.head?.any isAlphabetic

def followsQualifier (qualifier left : Text) : Bool :=
  qualifier.reverse.isPrefixOf left

def qualifierBefore? (left : Text) : Option Text :=
  match left with
  | '.' :: _ => some (left.takeWhile isNameChar).reverse
  | _ => none

/-- The text to the left after the new name of the class is put behind it. The legacy style leaves a
qualifier that is there and adds one that is not; the mapped style takes the new qualifier, in place
of a legacy one that is there. -/
def Rename.placeBehind (rename : Rename) (style : QualifierStyle) (left : Text) : Text :=
  let qualifier := rename.legacy.qualifier
  if followsQualifier qualifier left then
    match style with
    | .legacy => rename.target.name.reverse ++ left
    | .mapped => rename.target.qualified.reverse ++ left.drop qualifier.length
  else
    match style with
    | .legacy => (qualifier ++ rename.target.name).reverse ++ left
    | .mapped => rename.target.qualified.reverse ++ left

end NameMigration
