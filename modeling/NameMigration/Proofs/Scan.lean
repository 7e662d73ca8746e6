import NameMigration.Proofs.Places
import NameMigration.Substitution.Candidate

/-!
Scans as a relation. A line that is scanned is always split at the cursor, so one step either moves the
cursor on where nothing is taken, or puts the new name behind the text on the left. Whatever each
replacement preserves, a scan and a whole pass preserve.
-/

namespace NameMigration

namespace Search

variable {search : Search} {left rest behind source result : Text} {c : Char} {count : Nat}

theorem scan_passed (notFront : ∀ behind, c :: rest ≠ search.token ++ behind) :
    search.scan left (c :: rest) = search.scan (c :: left) rest := by
  rw [scan]
  split
  · rfl
  · rename_i behind found
    exact absurd (Text.after?_eq_some_iff.mp found) (notFront behind)

theorem scan_token (search : Search) (left behind : Text) :
    search.scan left (search.token ++ behind) =
      if search.takes left behind then
        ((search.scan (search.rename.placeBehind search.style left) behind).1,
          (search.scan (search.rename.placeBehind search.style left) behind).2 + 1)
      else search.scan (search.passed.reverse ++ left) (search.again ++ behind) := by
  have found := Text.after?_append search.token behind
  obtain ⟨c, rest, first⟩ := List.exists_cons_of_ne_nil search.token_ne_nil
  rw [first, List.cons_append] at found ⊢
  rw [scan]
  split
  · rename_i notFound
    rw [first, found] at notFound
    exact absurd notFound (by simp)
  · rename_i other foundOther
    rw [first, found, Option.some.injEq] at foundOther
    subst other
    rfl

theorem scan_taken (taken : search.takes left behind = true) :
    search.scan left (search.token ++ behind) =
      ((search.scan (search.rename.placeBehind search.style left) behind).1,
        (search.scan (search.rename.placeBehind search.style left) behind).2 + 1) := by
  rw [scan_token, if_pos taken]

theorem scan_refused (refused : search.takes left behind = false) :
    search.scan left (search.token ++ behind) =
      search.scan (search.passed.reverse ++ left) (search.again ++ behind) := by
  rw [scan_token, if_neg (Bool.eq_false_iff.mp refused)]

/-- The scan from a cursor between `left` and the source, with its result and the number of
replacements. -/
inductive Scans (search : Search) : Text → Text → Text → Nat → Prop
  | finished {left : Text} : Scans search left [] left.reverse 0
  | passed {left rest result : Text} {c : Char} {count : Nat} :
      (∀ behind, c :: rest ≠ search.token ++ behind) →
      Scans search (c :: left) rest result count → Scans search left (c :: rest) result count
  | refused {left behind result : Text} {count : Nat} : search.takes left behind = false →
      Scans search (search.passed.reverse ++ left) (search.again ++ behind) result count →
      Scans search left (search.token ++ behind) result count
  | taken {left behind result : Text} {count : Nat} : search.takes left behind = true →
      Scans search (search.rename.placeBehind search.style left) behind result count →
      Scans search left (search.token ++ behind) result (count + 1)

theorem scans_scan (search : Search) (left source : Text) :
    search.Scans left source (search.scan left source).1 (search.scan left source).2 := by
  induction left, source using scan.induct search with
  | case1 left =>
      rw [scan]
      exact Scans.finished
  | case2 left c rest notHere ih =>
      have notFront := Text.ne_append_of_after?_eq_none notHere
      rw [scan_passed notFront]
      exact Scans.passed notFront ih
  | case3 left c rest behind found _ taken _ _ _ ih =>
      rw [Text.after?_eq_some_iff.mp found, scan_taken taken]
      exact Scans.taken taken ih
  | case4 left c rest behind found _ notTaken ih =>
      have refused : search.takes left behind = false := Bool.eq_false_iff.mpr notTaken
      rw [Text.after?_eq_some_iff.mp found, scan_refused refused]
      exact Scans.refused refused (by simpa using ih)

theorem scans_apply (search : Search) (line : Text) :
    search.Scans [] line (search.apply line).1 (search.apply line).2 :=
  search.scans_scan [] line

theorem Scans.eq_scan (scans : search.Scans left source result count) :
    search.scan left source = (result, count) := by
  induction scans with
  | finished => rw [scan]
  | passed notFront _ ih => rw [scan_passed notFront, ih]
  | refused refused _ ih => rw [scan_refused refused, ih]
  | taken taken _ ih => rw [scan_taken taken, ih]

theorem Scans.result_of_count_eq_zero (scans : search.Scans left source result count)
    (idle : count = 0) : result = left.reverse ++ source := by
  induction scans with
  | finished => simp
  | passed _ _ ih => simpa using ih idle
  | refused _ _ ih =>
      rw [ih idle, search.parts]
      simp
  | taken _ _ _ => omega

theorem apply_of_count_eq_zero {line : Text} (idle : (search.apply line).2 = 0) :
    search.apply line = (line, 0) :=
  Prod.ext ((search.scans_apply line).result_of_count_eq_zero idle) idle

end Search

/-! ### Scans for a candidate -/

namespace Candidate

variable {candidate : Candidate} {context : UnitContext} {rules : Rules}

theorem isStandalone_of_accepts {left right : Text}
    (accepted : candidate.accepts context rules left right = true) :
    isStandalone left right = true := by
  simp only [accepts, Bool.and_eq_true] at accepted
  exact accepted.1.1

abbrev Scans (candidate : Candidate) (context : UnitContext) (rules : Rules) :
    Text → Text → Text → Nat → Prop :=
  (candidate.search context rules).Scans

theorem scans_apply (candidate : Candidate) (context : UnitContext) (rules : Rules) (line : Text) :
    candidate.Scans context rules [] line (candidate.apply context rules line).1
      (candidate.apply context rules line).2 :=
  (candidate.search context rules).scans_apply line

namespace Scans

variable {left rest behind result : Text} {c : Char} {count : Nat}

theorem finished : candidate.Scans context rules left [] left.reverse 0 :=
  Search.Scans.finished

/-- Where the candidate accepts nothing, one character is passed, whether its token stands there or
not. -/
theorem passed (rejected : ∀ behind, c :: rest = candidate.token ++ behind →
      candidate.accepts context rules left behind = false)
    (scans : candidate.Scans context rules (c :: left) rest result count) :
    candidate.Scans context rules left (c :: rest) result count := by
  by_cases here : candidate.token <+: c :: rest
  · obtain ⟨rename, token, nonempty⟩ := candidate
    obtain ⟨first, others, rfl⟩ := List.exists_cons_of_ne_nil nonempty
    obtain ⟨behind, here⟩ := here
    obtain ⟨rfl, rfl⟩ := List.cons.inj here
    exact Search.Scans.refused (rejected behind rfl) scans
  · refine Search.Scans.passed ?_ scans
    rintro behind front
    exact here ⟨behind, front.symm⟩

theorem replaced (accepted : candidate.accepts context rules left behind = true)
    (scans : candidate.Scans context rules (candidate.rename.placeBehind rules.style left) behind
      result count) :
    candidate.Scans context rules left (candidate.token ++ behind) result (count + 1) :=
  Search.Scans.taken accepted scans

end Scans

/-- Induction on a scan for a candidate: it has come to the end, it passes a character, or it replaces
the token. -/
theorem scans_induction
    {motive : (left source result : Text) → (count : Nat) →
      candidate.Scans context rules left source result count → Prop}
    (finished : ∀ {left}, motive left [] left.reverse 0 .finished)
    (passed : ∀ {left c rest result count}
      (rejected : ∀ behind, c :: rest = candidate.token ++ behind →
        candidate.accepts context rules left behind = false)
      (scans : candidate.Scans context rules (c :: left) rest result count),
      motive (c :: left) rest result count scans →
        motive left (c :: rest) result count (.passed rejected scans))
    (replaced : ∀ {left behind result count}
      (accepted : candidate.accepts context rules left behind = true)
      (scans : candidate.Scans context rules (candidate.rename.placeBehind rules.style left) behind
        result count),
      motive (candidate.rename.placeBehind rules.style left) behind result count scans →
        motive left (candidate.token ++ behind) result (count + 1) (.replaced accepted scans))
    {left source result : Text} {count : Nat}
    (scans : candidate.Scans context rules left source result count) :
    motive left source result count scans := by
  obtain ⟨rename, token, nonempty⟩ := candidate
  obtain ⟨c, others, rfl⟩ := List.exists_cons_of_ne_nil nonempty
  induction scans with
  | finished => exact finished
  | passed notFront scans ih =>
      exact passed (fun behind front => absurd front (notFront behind)) scans ih
  | @refused left behind result count refused scans ih =>
      refine passed (fun other front => ?_) scans ih
      obtain rfl : behind = other := by simpa [search] using front
      exact refused
  | taken accepted scans ih => exact replaced accepted scans ih

inductive Splices (candidate : Candidate) (context : UnitContext) (rules : Rules) :
    Text → Text → Prop
  | intro {left right} : candidate.accepts context rules left right = true →
      Splices candidate context rules (left.reverse ++ (candidate.token ++ right))
        ((candidate.rename.placeBehind rules.style left).reverse ++ right)

theorem Scans.preserves {motive : Text → Prop} {left source result : Text} {count : Nat}
    (step : ∀ line changed, candidate.Splices context rules line changed → motive line →
      motive changed)
    (scans : candidate.Scans context rules left source result count)
    (start : motive (left.reverse ++ source)) : motive result := by
  induction scans using scans_induction with
  | finished => simpa using start
  | passed _ _ ih => exact ih (by simpa using start)
  | replaced accepted _ ih => exact ih (step _ _ (Splices.intro accepted) start)

def RefersIn (candidate : Candidate) (context : UnitContext) (rules : Rules) (line : Text) : Prop :=
  ∃ left right, line = left.reverse ++ (candidate.token ++ right) ∧
    candidate.accepts context rules left right = true

theorem not_refersIn_of_long {line : Text} (different : candidate.token ≠ line)
    (long : line.utf8Length ≤ candidate.token.utf8Length) :
    ¬candidate.RefersIn context rules line := by
  rintro ⟨left, right, here, _⟩
  have measured := congrArg Text.utf8Length here
  rw [Text.utf8Length_append, Text.utf8Length_append] at measured
  have leftEmpty : left = [] :=
    List.reverse_eq_nil_iff.mp (Text.eq_nil_of_utf8Length_eq_zero (by omega))
  have rightEmpty : right = [] := Text.eq_nil_of_utf8Length_eq_zero (by omega)
  subst leftEmpty rightEmpty
  exact different (by simpa using here.symm)

theorem Scans.count_eq_zero_iff {left source result : Text} {count : Nat}
    (scans : candidate.Scans context rules left source result count) :
    count = 0 ↔ ∀ passed behind, source = passed ++ (candidate.token ++ behind) →
      candidate.accepts context rules (passed.reverse ++ left) behind = false := by
  induction scans using scans_induction with
  | finished =>
      simp only [true_iff]
      intro passed behind impossible
      have nonempty := candidate.token_ne_nil
      simp_all
  | passed rejected later ih =>
      rename_i left c rest result count
      rw [ih]
      constructor
      · intro silent passed behind here
        cases passed with
        | nil => exact rejected behind here
        | cons first others =>
            rw [List.cons_append, List.cons.injEq] at here
            obtain ⟨rfl, tail⟩ := here
            simpa using silent others behind tail
      · intro all passed behind here
        simpa using all (c :: passed) behind (by simp [here])
  | replaced accepted later ih =>
      rename_i left behind result count
      constructor
      · intro impossible
        omega
      · intro all
        have refused := all [] behind rfl
        rw [List.reverse_nil, List.nil_append, accepted] at refused
        exact absurd refused (by decide)

theorem apply_count_eq_zero_iff {line : Text} :
    (candidate.apply context rules line).2 = 0 ↔ ¬candidate.RefersIn context rules line := by
  rw [(candidate.scans_apply context rules line).count_eq_zero_iff]
  constructor
  · rintro silent ⟨left, right, here, accepted⟩
    have refused := silent left.reverse right here
    rw [List.reverse_reverse, List.append_nil, accepted] at refused
    exact absurd refused (by decide)
  · intro silent passed behind here
    apply Bool.eq_false_iff.mpr
    intro accepted
    exact silent ⟨passed.reverse, behind, by simpa using here, by simpa using accepted⟩

theorem apply_of_count_eq_zero {line : Text} (idle : (candidate.apply context rules line).2 = 0) :
    candidate.apply context rules line = (line, 0) :=
  Search.apply_of_count_eq_zero idle

theorem apply_of_not_refersIn {line : Text} (silent : ¬candidate.RefersIn context rules line) :
    candidate.apply context rules line = (line, 0) :=
  apply_of_count_eq_zero (apply_count_eq_zero_iff.mpr silent)

end Candidate

/-! ### Steps in sequence -/

section Sequences

variable {Step : Type} {apply : Step → Text → Text × Nat} {steps : List Step} {line : Text}

theorem inSequence_cons (step : Step) (rest : List Step) (line : Text) :
    inSequence apply (step :: rest) line =
      ((inSequence apply rest (apply step line).1).1,
        (apply step line).2 + (inSequence apply rest (apply step line).1).2) := rfl

@[simp] theorem inSequence_singleton (step : Step) (line : Text) :
    inSequence apply [step] line = apply step line := by
  simp [inSequence]

theorem inSequence_append (earlier later : List Step) (line : Text) :
    inSequence apply (earlier ++ later) line =
      ((inSequence apply later (inSequence apply earlier line).1).1,
        (inSequence apply earlier line).2 + (inSequence apply later (inSequence apply earlier line).1).2) := by
  induction earlier generalizing line with
  | nil => simp [inSequence]
  | cons step rest ih => rw [List.cons_append, inSequence_cons, ih, inSequence_cons, Nat.add_assoc]

theorem inSequence_congr {other : Step → Text → Text × Nat}
    (same : ∀ step ∈ steps, ∀ line, apply step line = other step line) (line : Text) :
    inSequence apply steps line = inSequence other steps line := by
  induction steps generalizing line with
  | nil => rfl
  | cons step rest ih =>
      have others := ih fun next member => same next (List.mem_cons_of_mem step member)
      rw [inSequence_cons, inSequence_cons, same step List.mem_cons_self, others]

theorem inSequence_preserves {motive : Text → Prop}
    (preserved : ∀ step ∈ steps, ∀ line, motive line → motive (apply step line).1)
    (start : motive line) : motive (inSequence apply steps line).1 := by
  induction steps generalizing line with
  | nil => exact start
  | cons step rest ih =>
      refine ih (fun other member => preserved other (List.mem_cons_of_mem step member)) ?_
      exact preserved step List.mem_cons_self line start

theorem inSequence_of_idle (idle : ∀ step ∈ steps, apply step line = (line, 0)) :
    inSequence apply steps line = (line, 0) := by
  induction steps with
  | nil => rfl
  | cons step rest ih =>
      have first := idle step (by simp)
      have others := ih fun other member => idle other (List.mem_cons_of_mem step member)
      rw [inSequence_cons, first, others]
      rfl

/-- Where a step that counts nothing changes nothing, all steps see the same line. -/
theorem inSequence_count_eq_zero_iff
    (keeps : ∀ step line, (apply step line).2 = 0 → apply step line = (line, 0)) :
    (inSequence apply steps line).2 = 0 ↔ ∀ step ∈ steps, (apply step line).2 = 0 := by
  constructor
  · intro idle
    induction steps with
    | nil => simp
    | cons step rest ih =>
        rw [inSequence_cons] at idle
        obtain ⟨first, others⟩ := Nat.add_eq_zero_iff.mp idle
        rw [keeps step line first] at others
        intro other member
        rcases List.mem_cons.mp member with same | later
        · exact same ▸ first
        · exact ih others other later
  · intro idle
    rw [inSequence_of_idle fun step member => keeps step line (idle step member)]

theorem inSequence_of_count_eq_zero
    (keeps : ∀ step line, (apply step line).2 = 0 → apply step line = (line, 0))
    (idle : (inSequence apply steps line).2 = 0) : inSequence apply steps line = (line, 0) :=
  inSequence_of_idle fun step member =>
    keeps step line ((inSequence_count_eq_zero_iff keeps).mp idle step member)

end Sequences

section Candidates

variable {context : UnitContext} {rules : Rules} {candidates : List Candidate} {line : Text}

theorem applyCandidates_cons (candidate : Candidate) (rest : List Candidate) (line : Text) :
    applyCandidates (candidate :: rest) context rules line =
      ((applyCandidates rest context rules (candidate.apply context rules line).1).1,
        (candidate.apply context rules line).2 +
          (applyCandidates rest context rules (candidate.apply context rules line).1).2) := rfl

theorem applyCandidates_append (earlier later : List Candidate) (line : Text) :
    applyCandidates (earlier ++ later) context rules line =
      ((applyCandidates later context rules (applyCandidates earlier context rules line).1).1,
        (applyCandidates earlier context rules line).2 +
          (applyCandidates later context rules (applyCandidates earlier context rules line).1).2) :=
  inSequence_append earlier later line

theorem applyCandidates_preserves {motive : Text → Prop}
    (step : ∀ candidate ∈ candidates, ∀ line changed,
      candidate.Splices context rules line changed → motive line → motive changed)
    (start : motive line) : motive (applyCandidates candidates context rules line).1 := by
  refine inSequence_preserves (fun candidate member line start => ?_) start
  exact (candidate.scans_apply context rules line).preserves (step candidate member) start

theorem applyCandidates_of_not_refersIn
    (silent : ∀ candidate ∈ candidates, ¬candidate.RefersIn context rules line) :
    applyCandidates candidates context rules line = (line, 0) :=
  inSequence_of_idle fun candidate member => Candidate.apply_of_not_refersIn (silent candidate member)

theorem applyCandidates_count_eq_zero_iff : (applyCandidates candidates context rules line).2 = 0 ↔
    ∀ candidate ∈ candidates, ¬candidate.RefersIn context rules line := by
  rw [applyCandidates, inSequence_count_eq_zero_iff fun _ _ => Candidate.apply_of_count_eq_zero]
  simp only [Candidate.apply_count_eq_zero_iff]

end Candidates

end NameMigration
