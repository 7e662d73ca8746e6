import NameMigration.Mapping.Basic
import NameMigration.Substitution.Search

/-!
The nested pass: where the flat pass has renamed an outer class, the inner class behind it still has
its legacy name, as in `NewOuter.OldInner`.
-/

namespace NameMigration

open Text (isAlphabetic)

structure NestedPattern where
  rename : Rename
  qualifier : Text
  newOuter : Text
  legacyInner : Text
  deriving DecidableEq, Repr

namespace NestedPattern

def token (pattern : NestedPattern) : Text :=
  pattern.qualifier ++ pattern.newOuter ++ '.' :: pattern.legacyInner

theorem token_ne_nil (pattern : NestedPattern) : pattern.token ≠ [] := by
  simp [token]

def ofRename? (style : QualifierStyle) (rename : Rename) : Option NestedPattern :=
  match rename.target.nesting?, rename.legacy.nesting? with
  | some (newOuter, _), some (_, legacyInner) =>
      let qualifier := match style with
        | .legacy => rename.legacy.qualifier
        | .mapped => rename.target.qualifier
      some { rename, qualifier, newOuter, legacyInner }
  | _, _ => none

def candidate (pattern : NestedPattern) : Candidate :=
  ⟨pattern.rename, pattern.token, pattern.token_ne_nil⟩

/-- A name that goes on with a letter is another one and is passed as a whole. -/
def search (pattern : NestedPattern) (style : QualifierStyle) : Search where
  toCandidate := pattern.candidate
  style := style
  takes _ right := !right.head?.any isAlphabetic
  passed := pattern.token
  passed_ne_nil := pattern.token_ne_nil
  again := []
  parts := (List.append_nil pattern.token).symm

def apply (pattern : NestedPattern) (style : QualifierStyle) (line : Text) : Text × Nat :=
  (pattern.search style).apply line

def applyAll (style : QualifierStyle) : List NestedPattern → Text → Text × Nat :=
  inSequence (·.apply style)

end NestedPattern

structure NestedGroup where
  qualifier : Text
  patterns : List NestedPattern
  deriving DecidableEq, Repr

namespace NestedGroup

/-- The line after the patterns of the group. A line without the qualifier has none of them. -/
def apply (group : NestedGroup) (style : QualifierStyle) (line : Text) : Text × Nat :=
  if Text.occurs group.qualifier line then NestedPattern.applyAll style group.patterns line
  else (line, 0)

def applyAll (style : QualifierStyle) : List NestedGroup → Text → Text × Nat :=
  inSequence (·.apply style)

end NestedGroup

def Mapping.nestedGroups (mapping : Mapping) (style : QualifierStyle) : List NestedGroup :=
  let patterns := mapping.nested.filterMap (NestedPattern.ofRename? style)
  (Text.ordered (patterns.map (·.qualifier))).map fun qualifier =>
    ⟨qualifier, patterns.filter (·.qualifier = qualifier)⟩

end NameMigration
