import NameMigration.Substitution.Position

/-!
The search for one token in a line, from left to right, as the flat and the nested pass do it. The text
that a replacement inserts is not searched again for the same token.
-/

namespace NameMigration

structure Candidate where
  rename : Rename
  token : Text
  token_ne_nil : token ≠ []

/-- A search for the token of a candidate. Where the token stands and is not taken, the front of it is
passed and what is left of it is searched again. -/
structure Search extends Candidate where
  style : QualifierStyle
  takes : (left right : Text) → Bool
  passed : Text
  passed_ne_nil : passed ≠ []
  again : Text
  parts : token = passed ++ again

namespace Search

theorem length_lt_of_after? {search : Search} {source behind : Text}
    (found : Text.after? search.token source = some behind) :
    behind.length < source.length ∧ (search.again ++ behind).length < source.length := by
  have positive := List.length_pos_iff.mpr search.passed_ne_nil
  rw [Text.after?_eq_some_iff.mp found, search.parts]
  simp only [List.length_append]
  omega

/-- The text with the token replaced wherever it is taken from `source` on, and how often that was.
`left` is what the search has passed, as it is now. -/
def scan (search : Search) (left source : Text) : Text × Nat :=
  match source with
  | [] => (left.reverse, 0)
  | c :: rest =>
      match found : Text.after? search.token (c :: rest) with
      | none => scan search (c :: left) rest
      | some behind =>
          have _shorter := length_lt_of_after? found
          if search.takes left behind then
            let (text, count) := scan search (search.rename.placeBehind search.style left) behind
            (text, count + 1)
          else scan search (search.passed.reverse ++ left) (search.again ++ behind)
  termination_by source.length
  decreasing_by all_goals simp only [List.length_cons] at *; omega

def apply (search : Search) (line : Text) : Text × Nat :=
  search.scan [] line

end Search

def inSequence {Step : Type} (apply : Step → Text → Text × Nat) : List Step → Text → Text × Nat
  | [], line => (line, 0)
  | step :: rest, line =>
      let (changed, count) := apply step line
      let (result, others) := inSequence apply rest changed
      (result, count + others)

end NameMigration
