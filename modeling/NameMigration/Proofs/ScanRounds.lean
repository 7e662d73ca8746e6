import NameMigration.Proofs.CursorScan
import NameMigration.Substitution.Nested

/-!
The rounds of a scan come to an end. The line may grow in a round, and the cursor may go back when a
package in front of it is taken out, but what is behind the cursor always loses bytes, and a replacement
takes as many as the token has. So these bytes bound both the rounds and the replacements.
-/

namespace NameMigration

def ScanState.bytesLeft (state : ScanState) : Nat :=
  state.line.utf8Length - state.cursor

namespace Search

variable {search : Search} {state next : ScanState} {states : List ScanState} {left right line : Text}
  {outcome : Text × Nat}

theorem utf8Length_passed (search : Search) :
    0 < search.passed.utf8Length ∧ search.passed.utf8Length ≤ search.token.utf8Length := by
  have measured := congrArg Text.utf8Length search.parts
  rw [Text.utf8Length_append] at measured
  have notZero : search.passed.utf8Length ≠ 0 :=
    fun zero => search.passed_ne_nil (Text.eq_nil_of_utf8Length_eq_zero zero)
  omega

/-- What holds of a state and the next one: the cursor stays in the line, fewer bytes are left behind it,
and those that are gone pay for a replacement. -/
structure Advances (search : Search) (state next : ScanState) : Prop where
  inLine : next.cursor ≤ next.line.utf8Length
  shorter : next.bytesLeft < state.bytesLeft
  paid : next.count * search.token.utf8Length + next.bytesLeft ≤
    state.count * search.token.utf8Length + state.bytesLeft

theorem advances_stateAfter (here : state.line = left ++ (search.token ++ right))
    (inFront : state.cursor ≤ left.utf8Length) :
    search.Advances state (search.stateAfter left right state.count) := by
  obtain ⟨positive, within⟩ := search.utf8Length_passed
  have length := congrArg Text.utf8Length here
  simp only [Text.utf8Length_append] at length
  cases taken : search.takes left.reverse right with
  | true =>
      -- What is written in front of the cursor counts in the line and in the offset alike.
      rw [stateAfter_of_taken taken]
      constructor <;> simp only [ScanState.bytesLeft, Text.utf8Length_append, Nat.succ_mul] <;> omega
  | false =>
      rw [stateAfter_of_refused taken]
      constructor <;> simp only [ScanState.bytesLeft, Text.utf8Length_append] <;> omega

theorem round_advances (goesOn : search.round state = .goesOn next) : search.Advances state next := by
  obtain ⟨offset, left, right, here, found, place⟩ := exists_place goesOn
  obtain rfl := Round.goesOn.inj (goesOn.symm.trans (round_of_offset here found place))
  exact advances_stateAfter here (by omega)

theorem Run.length_le (run : search.Run state states outcome) : states.length ≤ state.bytesLeft := by
  induction run with
  | ended _ => exact Nat.zero_le _
  | goesOn first _ ih =>
      have shorter := (round_advances first).shorter
      rw [List.length_cons]
      omega

theorem Run.paid (run : search.Run state states outcome) :
    outcome.2 * search.token.utf8Length ≤ state.count * search.token.utf8Length + state.bytesLeft := by
  induction run with
  | ended _ => exact Nat.le_add_right _ _
  | goesOn first _ ih => exact Nat.le_trans ih (round_advances first).paid

/-- Whether each round of a scan leaves fewer bytes than before, and the rounds over the line end with
this outcome, where neither they nor the bytes that they replace are more than the line has. -/
structure Exhausts (search : Search) (line : Text) (outcome : Text × Nat) : Prop where
  shortens : ∀ state next, search.round state = .goesOn next →
    next.cursor ≤ next.line.utf8Length ∧ next.bytesLeft < state.bytesLeft
  ends : ∃ states, search.Run ⟨line, 0, 0⟩ states outcome ∧ states.length ≤ line.utf8Length
  bounded : outcome.2 * search.token.utf8Length ≤ line.utf8Length

theorem Run.exhausts (run : search.Run ⟨line, 0, 0⟩ states outcome) : search.Exhausts line outcome where
  shortens _ _ goesOn := ⟨(round_advances goesOn).inLine, (round_advances goesOn).shorter⟩
  ends := ⟨states, run, run.length_le⟩
  bounded := by simpa [ScanState.bytesLeft] using run.paid

theorem exhausts (search : Search) (line : Text) : search.Exhausts line (search.apply line) := by
  obtain ⟨states, run⟩ := search.exists_run line
  exact run.exhausts

end Search

/-- In each round of the flat and of the nested pass fewer bytes are left to scan, whatever is put in and
wherever that begins. So the rounds end with the result of the pass, after no more of them than the line
has bytes, and its replacements take no more bytes than the line has. -/
theorem passes_exhaust (line : Text) :
    (∀ (candidate : Candidate) (context : UnitContext) (rules : Rules),
      (candidate.search context rules).Exhausts line (candidate.apply context rules line)) ∧
    ∀ (pattern : NestedPattern) (style : QualifierStyle),
      (pattern.search style).Exhausts line (pattern.apply style line) := by
  constructor
  · intro candidate context rules
    exact (candidate.search context rules).exhausts line
  · intro pattern style
    exact (pattern.search style).exhausts line

/-! The package of this class ends like its new name, which the round before has put in front of the
second reference. So the cursor goes back with the package. -/

example :
    let rename : Rename := ⟨⟨"x.q.p.".toList, "Box".toList⟩, ⟨"q.".toList, "p".toList⟩⟩
    let candidate : Candidate := ⟨rename, "Box".toList, by decide⟩
    let search := candidate.search ⟨[rename], [], []⟩ ⟨"x".toList, [], [], .mapped⟩
    search.round ⟨"x.Box.Box".toList, 0, 0⟩ = .goesOn ⟨"x.q.p.Box".toList, 5, 1⟩ ∧
    search.round ⟨"x.q.p.Box".toList, 5, 1⟩ = .goesOn ⟨"q.p".toList, 3, 2⟩ := by
  decide

end NameMigration
