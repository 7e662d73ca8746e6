import NameMigration.Substitution.Search
import NameMigration.Unit.Context

/-!
The flat pass: each rename of a unit is looked up in the line on its own.
-/

namespace NameMigration

/-- The text that refers to a class. An imported class is referred to by its name, any other with
its package. Of exactly two dotted parts only the last is used: this is how a class inside another
appears. -/
def Rename.searchToken (rename : Rename) (isImported : Bool) : Text :=
  let token := if isImported then rename.legacy.name else rename.legacy.qualified
  match token.segments with
  | [_, last] => last
  | _ => token

namespace Candidate

def ofRename? (rename : Rename) (isImported : Bool) : Option Candidate :=
  if nonempty : rename.searchToken isImported ≠ [] then
    some ⟨rename, rename.searchToken isImported, nonempty⟩
  else none

/-- Whether the token between `left` and `right` refers to the class: it is a name of its own, no
foreign import has that name unless the legacy package stands in front, and it is not a member of
something protected. -/
def accepts (candidate : Candidate) (context : UnitContext) (rules : Rules)
    (left right : Text) : Bool :=
  isStandalone left right &&
    (followsQualifier candidate.rename.legacy.qualifier left ||
      !context.isForeign candidate.token) &&
    !(qualifierBefore? left).any (isProtected rules.protectedRoots)

/-- Where the token is not accepted, only its first character is passed. -/
def search (candidate : Candidate) (context : UnitContext) (rules : Rules) : Search where
  toCandidate := candidate
  style := rules.style
  takes := candidate.accepts context rules
  passed := candidate.token.take 1
  passed_ne_nil := by simp [candidate.token_ne_nil]
  again := candidate.token.drop 1
  parts := (List.take_append_drop 1 candidate.token).symm

def apply (candidate : Candidate) (context : UnitContext) (rules : Rules) (line : Text) :
    Text × Nat :=
  (candidate.search context rules).apply line

end Candidate

/-- The candidates of a unit, the longest token first, so that a token is not replaced inside
another one. Candidates with tokens of one length keep the order of the context. -/
def UnitContext.candidates (context : UnitContext) : List Candidate :=
  (context.renames.filterMap fun (rename, isImported) => Candidate.ofRename? rename isImported)
    |>.mergeSort fun first second => second.token.utf8Length ≤ first.token.utf8Length

def applyCandidates (candidates : List Candidate) (context : UnitContext) (rules : Rules)
    (line : Text) : Text × Nat :=
  inSequence (·.apply context rules) candidates line

end NameMigration
