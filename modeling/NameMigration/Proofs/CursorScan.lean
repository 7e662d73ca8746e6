import NameMigration.Proofs.ByteOffsets
import NameMigration.Proofs.ScanDivision

/-!
Scans over byte offsets, round by round. A cursor runs over the UTF-8 bytes of the line; each round looks
for the token from there on, and then either puts the new name in or goes on behind the front of what it
has found. The line is cut at characters only, so the rounds come to the result of the scan over
characters.
-/

namespace NameMigration

def Rename.spliceBehind (rename : Rename) (style : QualifierStyle) (left : Text) : Nat × Text :=
  let qualifier := rename.legacy.qualifier
  let follows := followsQualifier qualifier left.reverse
  match style with
  | .legacy =>
      (left.utf8Length, if follows then rename.target.name else qualifier ++ rename.target.name)
  | .mapped =>
      (if follows then left.utf8Length - qualifier.utf8Length else left.utf8Length,
        rename.target.qualified)

theorem Rename.exists_spliceBehind (rename : Rename) (style : QualifierStyle) (left : Text) :
    ∃ kept dropped inserted, rename.spliceBehind style left = (kept.utf8Length, inserted) ∧
      left = kept ++ dropped ∧ rename.writeBehind style left = kept ++ inserted := by
  by_cases follows : rename.legacy.qualifier <:+ left
  · have isBehind := followsQualifier_reverse.mpr follows
    cases style with
    | legacy =>
        refine ⟨left, [], rename.target.name, by simp [spliceBehind, isBehind], by simp, ?_⟩
        rw [writeBehind_legacy, legacyForm, if_pos follows]
    | mapped =>
        obtain ⟨front, rfl⟩ := follows
        refine ⟨front, rename.legacy.qualifier, rename.target.qualified, ?_, rfl,
          writeBehind_mapped_append rename front⟩
        simp only [spliceBehind, isBehind, if_true, Text.utf8Length_append, Nat.add_sub_cancel]
  · have apart : followsQualifier rename.legacy.qualifier left.reverse = false :=
      Bool.eq_false_iff.mpr fun isBehind => follows (followsQualifier_reverse.mp isBehind)
    cases style with
    | legacy =>
        refine ⟨left, [], rename.legacy.qualifier ++ rename.target.name,
          by simp [spliceBehind, apart], by simp, ?_⟩
        rw [writeBehind_legacy, legacyForm, if_neg follows]
    | mapped =>
        exact ⟨left, [], rename.target.qualified, by simp [spliceBehind, apart], by simp,
          writeBehind_mapped follows⟩

/-! ### Scans round by round -/

structure ScanState where
  line : Text
  cursor : Nat
  count : Nat
  deriving DecidableEq, Repr

def ScanState.behind (left source : Text) (count : Nat) : ScanState :=
  ⟨left.reverse ++ source, Text.utf8Length left.reverse, count⟩

inductive Round where
  | ended
  | goesOn (next : ScanState)
  | cutsCharacter
  deriving DecidableEq, Repr

namespace Search

def round (search : Search) (state : ScanState) : Round :=
  if state.cursor < state.line.utf8Length then
    match search.token.offsetIn? (state.line.utf8.drop state.cursor) with
    | none => .ended
    | some offset =>
        let start := state.cursor + offset
        let stop := start + search.token.utf8Length
        match state.line.cutAt? start, state.line.cutAt? stop with
        | some (left, _), some (_, right) =>
            if search.takes left.reverse right then
              let (place, inserted) := search.rename.spliceBehind search.style left
              match state.line.cutAt? place with
              | none => .cutsCharacter
              | some (kept, _) =>
                  .goesOn ⟨kept ++ inserted ++ right, place + inserted.utf8Length, state.count + 1⟩
            else .goesOn { state with cursor := start + search.passed.utf8Length }
        | _, _ => .cutsCharacter
  else .ended

inductive Run (search : Search) : ScanState → List ScanState → Text × Nat → Prop
  | ended {state} : search.round state = .ended → Run search state [] (state.line, state.count)
  | goesOn {state next states outcome} : search.round state = .goesOn next →
      Run search next states outcome → Run search state (next :: states) outcome

def stateAfter (search : Search) (left right : Text) (count : Nat) : ScanState :=
  if search.takes left.reverse right then
    let written := search.rename.writeBehind search.style left
    ⟨written ++ right, written.utf8Length, count + 1⟩
  else ⟨left ++ (search.token ++ right), left.utf8Length + search.passed.utf8Length, count⟩

variable {search : Search} {state next : ScanState} {states : List ScanState}
  {line left right rest : Text} {c : Char} {cursor offset count : Nat} {outcome : Text × Nat}

theorem stateAfter_of_taken (taken : search.takes left.reverse right = true) :
    search.stateAfter left right count = ⟨search.rename.writeBehind search.style left ++ right,
      (search.rename.writeBehind search.style left).utf8Length, count + 1⟩ :=
  if_pos taken

theorem stateAfter_of_refused (refused : search.takes left.reverse right = false) :
    search.stateAfter left right count =
      ⟨left ++ (search.token ++ right), left.utf8Length + search.passed.utf8Length, count⟩ :=
  if_neg (Bool.eq_false_iff.mp refused)

theorem round_of_nowhere (nowhere : search.token.offsetIn? (state.line.utf8.drop state.cursor) = none) :
    search.round state = .ended := by
  simp [round, nowhere]

theorem round_of_offset (here : state.line = left ++ (search.token ++ right))
    (found : search.token.offsetIn? (state.line.utf8.drop state.cursor) = some offset)
    (place : state.cursor + offset = left.utf8Length) :
    search.round state = .goesOn (search.stateAfter left right state.count) := by
  have inLine : state.cursor < state.line.utf8Length := by
    by_contra beyond
    rw [Text.offsetIn?_of_beyond search.token_ne_nil (Nat.le_of_not_lt beyond)] at found
    exact absurd found (by simp)
  have atStart : state.line.cutAt? left.utf8Length = some (left, search.token ++ right) := by
    rw [here, Text.cutAt?_append]
  have atStop : state.line.cutAt? (left.utf8Length + search.token.utf8Length) =
      some (left ++ search.token, right) := by
    rw [here, Text.cutAt?_behind]
  obtain ⟨kept, dropped, inserted, splice, split, written⟩ :=
    search.rename.exists_spliceBehind search.style left
  have atPlace : state.line.cutAt? kept.utf8Length =
      some (kept, dropped ++ (search.token ++ right)) := by
    rw [here, split, List.append_assoc, Text.cutAt?_append]
  simp only [round, if_pos inLine, found, place, atStart, atStop, splice, atPlace, stateAfter, written,
    Text.utf8Length_append, ← here]
  split <;> rfl

theorem nowhere_of_ended (ended : search.round state = .ended) :
    search.token.offsetIn? (state.line.utf8.drop state.cursor) = none := by
  unfold round at ended
  split at ended
  · split at ended
    · assumption
    · simp only at ended
      split at ended
      · split at ended
        · split at ended <;> exact absurd ended (by simp)
        · exact absurd ended (by simp)
      · exact absurd ended (by simp)
  · rename_i beyond
    exact Text.offsetIn?_of_beyond search.token_ne_nil (Nat.le_of_not_lt beyond)

/-- A round that goes on has come to a place where the token stands. -/
theorem exists_place (goesOn : search.round state = .goesOn next) :
    ∃ offset left right, state.line = left ++ (search.token ++ right) ∧
      search.token.offsetIn? (state.line.utf8.drop state.cursor) = some offset ∧
      state.cursor + offset = left.utf8Length := by
  unfold round at goesOn
  split at goesOn
  · split at goesOn
    · exact absurd goesOn (by simp)
    · rename_i offset found
      simp only at goesOn
      split at goesOn
      · rename_i left source _ _ atStart _
        obtain ⟨whole, place⟩ := Text.cutAt?_eq_some_iff.mp atStart
        obtain ⟨right, here⟩ := Text.prefix_of_offsetIn? found atStart
        exact ⟨offset, left, right, by rw [whole, here], found, place.symm⟩
      · exact absurd goesOn (by simp)
  · exact absurd goesOn (by simp)

theorem round_at (search : Search) (left right : Text) (count : Nat) :
    search.round ⟨left ++ (search.token ++ right), left.utf8Length, count⟩ =
      .goesOn (search.stateAfter left right count) := by
  refine round_of_offset rfl ?_ (Nat.add_zero _)
  rw [Text.drop_utf8_append]
  exact Text.offsetIn?_front search.token_ne_nil right

theorem round_over (apart : ¬search.token <+: c :: rest) (left : Text) (count : Nat) :
    search.round ⟨left ++ c :: rest, left.utf8Length, count⟩ =
      search.round ⟨left ++ c :: rest, left.utf8Length + c.utf8Size, count⟩ := by
  have here : search.token.offsetIn? ((Text.utf8 (left ++ c :: rest)).drop left.utf8Length) =
      (search.token.offsetIn? (Text.utf8 rest)).map (· + c.utf8Size) := by
    rw [Text.drop_utf8_append, Text.offsetIn?_cons search.token_ne_nil, if_neg apart]
  have next : search.token.offsetIn?
      ((Text.utf8 (left ++ c :: rest)).drop (left.utf8Length + c.utf8Size)) =
        search.token.offsetIn? (Text.utf8 rest) := by
    rw [← List.drop_drop, Text.drop_utf8_append, Text.utf8_cons, ← String.length_utf8EncodeChar,
      List.drop_left]
  cases found : search.token.offsetIn? (Text.utf8 rest) with
  | none =>
      rw [round_of_nowhere (by rw [here, found]; rfl), round_of_nowhere (by rw [next, found])]
  | some offset =>
      obtain ⟨front, right, spelled, measured⟩ :=
        Text.exists_of_offsetIn?_eq_some search.token_ne_nil found
      have split : left ++ c :: rest = left ++ c :: front ++ (search.token ++ right) := by
        simp [spelled]
      have place : left.utf8Length + c.utf8Size + offset = (left ++ c :: front).utf8Length := by
        rw [Text.utf8Length_append, Text.utf8Length, measured, Nat.add_assoc]
      have placeHere : left.utf8Length + (offset + c.utf8Size) =
          (left ++ c :: front).utf8Length := by omega
      rw [found] at here next
      have first : search.round ⟨left ++ c :: rest, left.utf8Length, count⟩ =
          .goesOn (search.stateAfter (left ++ c :: front) right count) :=
        round_of_offset split here placeHere
      rw [first]
      symm
      exact round_of_offset split next place

theorem run_end (search : Search) (left : Text) (count : Nat) :
    search.Run (.behind left [] count) [] (left.reverse, count) := by
  have nowhere : search.token.offsetIn?
      ((Text.utf8 (left.reverse ++ [])).drop (Text.utf8Length left.reverse)) = none := by
    rw [Text.drop_utf8_append]
    exact Text.offsetIn?_nil search.token_ne_nil
  have ended : search.round (.behind left [] count) = .ended := round_of_nowhere nowhere
  simpa [ScanState.behind] using Run.ended ended

/-- A character that the token does not stand at may as well have been passed. -/
theorem Run.passed (apart : ¬search.token <+: c :: rest)
    (run : search.Run (.behind (c :: left) rest count) states outcome) :
    search.Run (.behind left (c :: rest) count) states outcome := by
  have same := round_over apart left.reverse count
  rw [ScanState.behind, List.reverse_cons, List.append_assoc, List.singleton_append,
    Text.utf8Length_append] at run
  cases run with
  | ended last => exact Run.ended (same.trans last)
  | goesOn first later => exact Run.goesOn (same.trans first) later

theorem Run.refused (refused : search.takes left right = false)
    (run : search.Run (.behind (search.passed.reverse ++ left) (search.again ++ right) count) states
      outcome) : ∃ states, search.Run (.behind left (search.token ++ right) count) states outcome := by
  have first := search.round_at left.reverse right count
  rw [stateAfter, List.reverse_reverse, refused] at first
  rw [ScanState.behind, List.reverse_append, List.reverse_reverse, List.append_assoc,
    ← List.append_assoc search.passed, ← search.parts, Text.utf8Length_append] at run
  exact ⟨_, Run.goesOn first run⟩

theorem Run.taken (taken : search.takes left right = true)
    (run : search.Run (.behind (search.rename.placeBehind search.style left) right (count + 1)) states
      outcome) :
    ∃ states, search.Run (.behind left (search.token ++ right) count) states outcome := by
  have first := search.round_at left.reverse right count
  rw [stateAfter, Rename.writeBehind, List.reverse_reverse, taken] at first
  exact ⟨_, Run.goesOn first run⟩

/-- The rounds of the cursor over bytes come to the result of the scan. -/
theorem Scans.exists_run {source result : Text} (scans : search.Scans left source result count)
    (before : Nat) :
    ∃ states, search.Run (.behind left source before) states (result, before + count) := by
  induction scans generalizing before with
  | @finished left => exact ⟨[], run_end _ left before⟩
  | passed notFront _ ih =>
      obtain ⟨states, run⟩ := ih before
      refine ⟨states, run.passed ?_⟩
      rintro ⟨behind, front⟩
      exact notFront behind front.symm
  | refused refused _ ih =>
      obtain ⟨states, run⟩ := ih before
      exact run.refused refused
  | @taken left behind result count taken _ ih =>
      obtain ⟨states, run⟩ := ih (before + 1)
      rw [Nat.add_assoc, Nat.add_comm 1] at run
      exact run.taken taken

theorem exists_run (search : Search) (line : Text) :
    ∃ states, search.Run ⟨line, 0, 0⟩ states (search.apply line) := by
  obtain ⟨states, run⟩ := (search.scans_apply line).exists_run 0
  rw [Nat.zero_add] at run
  exact ⟨states, run⟩

end Search

namespace Candidate

/-- The line with every reference to the class replaced from the cursor on, and their number. All
offsets count bytes. Nothing is answered once the line would be cut inside a character. -/
def applyFrom (candidate : Candidate) (context : UnitContext) (rules : Rules) (line : Text)
    (cursor : Nat) : Option (Text × Nat) :=
  if cursor < line.utf8Length then
    match candidate.token.offsetIn? (line.utf8.drop cursor) with
    | none => some (line, 0)
    | some offset =>
        let start := cursor + offset
        let stop := start + candidate.token.utf8Length
        match line.cutAt? start, _atStop : line.cutAt? stop with
        | some (left, source), some (_, right) =>
            if candidate.accepts context rules left.reverse right then
              let (place, inserted) := candidate.rename.spliceBehind rules.style left
              match _atPlace : line.cutAt? place with
              | none => none
              | some (kept, _) =>
                  (candidate.applyFrom context rules (kept ++ inserted ++ right)
                    (place + inserted.utf8Length)).map fun (text, count) => (text, count + 1)
            else candidate.applyFrom context rules line (start + source.head?.elim 1 Char.utf8Size)
        | _, _ => none
  else some (line, 0)
  termination_by line.utf8Length - cursor
  decreasing_by
    · have positive : 0 < candidate.token.utf8Length :=
        Nat.pos_of_ne_zero fun zero =>
          candidate.token_ne_nil (Text.eq_nil_of_utf8Length_eq_zero zero)
      obtain ⟨whole, front⟩ := Text.cutAt?_eq_some_iff.mp _atStop
      obtain ⟨_, keptFront⟩ := Text.cutAt?_eq_some_iff.mp _atPlace
      have length := congrArg Text.utf8Length whole
      simp only [Text.utf8Length_append] at length ⊢
      omega
    · have positive : 0 < source.head?.elim 1 Char.utf8Size := by
        cases source with
        | nil => exact Nat.one_pos
        | cons c _ => exact c.utf8Size_pos
      omega

variable {candidate : Candidate} {context : UnitContext} {rules : Rules}
  {line left source result : Text} {state : ScanState} {states : List ScanState}
  {cursor count : Nat} {outcome : Text × Nat}

theorem applyFrom_of_offset_none
    (nowhere : candidate.token.offsetIn? (line.utf8.drop cursor) = none) :
    candidate.applyFrom context rules line cursor = some (line, 0) := by
  rw [applyFrom]
  split
  · simp only [nowhere]
  · rfl

theorem applyFrom_of_offset (here : line = left ++ (candidate.token ++ right))
    (found : candidate.token.offsetIn? (line.utf8.drop cursor) = some offset)
    (place : cursor + offset = left.utf8Length) :
    candidate.applyFrom context rules line cursor =
      if candidate.accepts context rules left.reverse right then
        (candidate.applyFrom context rules
          (candidate.rename.writeBehind rules.style left ++ right)
          (candidate.rename.writeBehind rules.style left).utf8Length).map
            fun (text, count) => (text, count + 1)
      else candidate.applyFrom context rules line
        (left.utf8Length + (candidate.token ++ right).head?.elim 1 Char.utf8Size) := by
  have inLine : cursor < line.utf8Length := by
    by_contra beyond
    rw [Text.offsetIn?_of_beyond candidate.token_ne_nil (Nat.le_of_not_lt beyond)] at found
    exact absurd found (by simp)
  have atStart : line.cutAt? left.utf8Length = some (left, candidate.token ++ right) := by
    rw [here, Text.cutAt?_append]
  have atStop : line.cutAt? (left.utf8Length + candidate.token.utf8Length) =
      some (left ++ candidate.token, right) := by
    rw [here, Text.cutAt?_behind]
  obtain ⟨kept, dropped, inserted, splice, split, written⟩ :=
    candidate.rename.exists_spliceBehind rules.style left
  have atPlace : line.cutAt? kept.utf8Length = some (kept, dropped ++ (candidate.token ++ right)) := by
    rw [here, split, List.append_assoc, Text.cutAt?_append]
  rw [applyFrom, if_pos inLine]
  simp only [found]
  rw [← place] at atStart atStop
  split
  · rename_i cutStart cutStop
    rw [atStart, Option.some.injEq, Prod.mk.injEq] at cutStart
    rw [atStop, Option.some.injEq, Prod.mk.injEq] at cutStop
    obtain ⟨rfl, rfl⟩ := cutStart
    obtain ⟨rfl, rfl⟩ := cutStop
    rw [place]
    split
    · split
      · rename_i cutPlace
        rw [splice, atPlace] at cutPlace
        exact absurd cutPlace (by simp)
      · rename_i cutPlace
        rw [splice, atPlace, Option.some.injEq, Prod.mk.injEq] at cutPlace
        obtain ⟨rfl, rfl⟩ := cutPlace
        rw [splice, written, Text.utf8Length_append]
    · rfl
  · rename_i notCut
    exact (notCut _ _ _ _ atStart atStop).elim

theorem applyFrom_of_run (run : (candidate.search context rules).Run state states outcome) :
    ∃ others, candidate.applyFrom context rules state.line state.cursor = some (outcome.1, others) ∧
      outcome.2 = state.count + others := by
  induction run with
  | ended last => exact ⟨0, applyFrom_of_offset_none (Search.nowhere_of_ended last), rfl⟩
  | @goesOn state next states outcome first _ ih =>
      obtain ⟨others, applied, counted⟩ := ih
      obtain ⟨offset, left, right, here, found, place⟩ := Search.exists_place first
      obtain rfl := Round.goesOn.inj (first.symm.trans (Search.round_of_offset here found place))
      have onward : candidate.applyFrom context rules state.line state.cursor = _ :=
        applyFrom_of_offset here found place
      rw [onward]
      cases accepted : candidate.accepts context rules left.reverse right with
      | true =>
          have taken : (candidate.search context rules).takes left.reverse right = true := accepted
          rw [Search.stateAfter_of_taken taken] at applied counted
          refine ⟨others + 1, ?_, counted.trans (Nat.add_right_comm state.count 1 others)⟩
          rw [if_pos rfl]
          exact congrArg (Option.map _) applied
      | false =>
          have refused : (candidate.search context rules).takes left.reverse right = false :=
            accepted
          rw [Search.stateAfter_of_refused refused, ← here] at applied counted
          refine ⟨others, ?_, counted⟩
          obtain ⟨c, rest, spelled⟩ := List.exists_cons_of_ne_nil candidate.token_ne_nil
          simpa [search, spelled, Text.utf8Length] using applied

/-- The cursor over bytes comes to the result of the scan, and it never cuts a character. -/
theorem applyFrom_zero (line : Text) :
    candidate.applyFrom context rules line 0 = some (candidate.apply context rules line) := by
  obtain ⟨states, run⟩ := (candidate.search context rules).exists_run line
  obtain ⟨others, applied, counted⟩ := applyFrom_of_run run
  rw [Nat.zero_add] at counted
  rw [← counted] at applied
  exact applied

end Candidate

end NameMigration
