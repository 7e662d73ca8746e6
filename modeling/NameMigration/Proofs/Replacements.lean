import NameMigration.Proofs.PassedText

/-!
The replacements of a flat pass, one by one, with the line around each as it is at that moment. Main
statement: they lead from the line to the result, each from the line that the one before it left, and
the pass counts just these.
-/

namespace NameMigration

/-- A replacement by a candidate. As in a scan, the text to the left has its nearest character first,
and it has the earlier replacements in it. -/
structure Replacement where
  candidate : Candidate
  left : Text
  right : Text

namespace Replacement

def lineBefore (replacement : Replacement) : Text :=
  replacement.left.reverse ++ (replacement.candidate.token ++ replacement.right)

def lineAfter (replacement : Replacement) (style : QualifierStyle) : Text :=
  (replacement.candidate.rename.placeBehind style replacement.left).reverse ++ replacement.right

def Lead (style : QualifierStyle) : List Replacement → Text → Text → Prop
  | [], line, result => line = result
  | replacement :: rest, line, result =>
      line = replacement.lineBefore ∧ Lead style rest (replacement.lineAfter style) result

theorem Lead.append {style : QualifierStyle} {first second : List Replacement}
    {line middle result : Text} (leads : Lead style first line middle)
    (leadsOn : Lead style second middle result) : Lead style (first ++ second) line result := by
  induction first generalizing line with
  | nil =>
      rw [Lead] at leads
      exact leads ▸ leadsOn
  | cons replacement rest ih => exact ⟨leads.1, ih leads.2⟩

def IsMember (replacement : Replacement) : Prop :=
  replacement.left.head? = some '.'

def IsBehindPackage (replacement : Replacement) : Prop :=
  replacement.candidate.rename.legacy.qualifier ≠ [] ∧
    followsQualifier replacement.candidate.rename.legacy.qualifier replacement.left = true

instance (replacement : Replacement) : Decidable replacement.IsMember :=
  inferInstanceAs (Decidable (_ = _))

instance (replacement : Replacement) : Decidable replacement.IsBehindPackage :=
  inferInstanceAs (Decidable (_ ∧ _))

end Replacement

namespace Search

def replacements (search : Search) (left source : Text) : List Replacement :=
  match source with
  | [] => []
  | c :: rest =>
      match found : Text.after? search.token (c :: rest) with
      | none => replacements search (c :: left) rest
      | some behind =>
          have _shorter := length_lt_of_after? found
          if search.takes left behind then
            ⟨search.toCandidate, left, behind⟩ ::
              replacements search (search.rename.placeBehind search.style left) behind
          else replacements search (search.passed.reverse ++ left) (search.again ++ behind)
  termination_by source.length
  decreasing_by all_goals simp only [List.length_cons] at *; omega

variable {search : Search} {left rest behind source result : Text} {c : Char} {count : Nat}
  {replacement : Replacement}

theorem replacements_passed (notFront : ∀ behind, c :: rest ≠ search.token ++ behind) :
    search.replacements left (c :: rest) = search.replacements (c :: left) rest := by
  rw [replacements]
  split
  · rfl
  · rename_i behind found
    exact absurd (Text.after?_eq_some_iff.mp found) (notFront behind)

theorem replacements_token (search : Search) (left behind : Text) :
    search.replacements left (search.token ++ behind) =
      if search.takes left behind then
        ⟨search.toCandidate, left, behind⟩ ::
          search.replacements (search.rename.placeBehind search.style left) behind
      else search.replacements (search.passed.reverse ++ left) (search.again ++ behind) := by
  have found := Text.after?_append search.token behind
  obtain ⟨c, rest, first⟩ := List.exists_cons_of_ne_nil search.token_ne_nil
  rw [first, List.cons_append] at found ⊢
  rw [replacements]
  split
  · rename_i notFound
    rw [first, found] at notFound
    exact absurd notFound (by simp)
  · rename_i other foundOther
    rw [first, found, Option.some.injEq] at foundOther
    subst other
    rfl

theorem replacements_taken (taken : search.takes left behind = true) :
    search.replacements left (search.token ++ behind) =
      ⟨search.toCandidate, left, behind⟩ ::
        search.replacements (search.rename.placeBehind search.style left) behind := by
  rw [replacements_token, if_pos taken]

theorem replacements_refused (refused : search.takes left behind = false) :
    search.replacements left (search.token ++ behind) =
      search.replacements (search.passed.reverse ++ left) (search.again ++ behind) := by
  rw [replacements_token, if_neg (Bool.eq_false_iff.mp refused)]

theorem Scans.length_replacements (scans : search.Scans left source result count) :
    (search.replacements left source).length = count := by
  induction scans with
  | finished => rw [replacements, List.length_nil]
  | passed notFront _ ih => rw [replacements_passed notFront, ih]
  | refused refused _ ih => rw [replacements_refused refused, ih]
  | taken taken _ ih => rw [replacements_taken taken, List.length_cons, ih]

theorem Scans.lead (scans : search.Scans left source result count) :
    Replacement.Lead search.style (search.replacements left source) (left.reverse ++ source)
      result := by
  induction scans with
  | finished => rw [replacements, Replacement.Lead, List.append_nil]
  | passed notFront _ ih =>
      rw [replacements_passed notFront]
      simpa using ih
  | refused refused _ ih =>
      rw [replacements_refused refused]
      rw [List.reverse_append, List.reverse_reverse, List.append_assoc,
        ← List.append_assoc search.passed, ← search.parts] at ih
      exact ih
  | taken taken _ ih =>
      rw [replacements_taken taken]
      exact ⟨rfl, ih⟩

theorem Scans.takes_of_mem (scans : search.Scans left source result count)
    (member : replacement ∈ search.replacements left source) :
    replacement.candidate = search.toCandidate ∧
      search.takes replacement.left replacement.right = true := by
  induction scans with
  | finished =>
      rw [replacements] at member
      exact absurd member (by simp)
  | passed notFront _ ih => exact ih (replacements_passed notFront ▸ member)
  | refused refused _ ih => exact ih (replacements_refused refused ▸ member)
  | taken taken _ ih =>
      rw [replacements_taken taken] at member
      rcases List.mem_cons.mp member with rfl | later
      · exact ⟨rfl, taken⟩
      · exact ih later

theorem apply_lead (search : Search) (line : Text) :
    Replacement.Lead search.style (search.replacements [] line) line (search.apply line).1 ∧
      (search.replacements [] line).length = (search.apply line).2 :=
  ⟨(search.scans_apply line).lead, (search.scans_apply line).length_replacements⟩

theorem mem_replacements_alone (taken : search.takes left [] = true) :
    ⟨search.toCandidate, left, []⟩ ∈ search.replacements left search.token := by
  have atStart := replacements_taken taken
  rw [List.append_nil] at atStart
  rw [atStart]
  exact List.mem_cons_self

theorem mem_replacements_behind (notFront : ∀ behind, c :: search.token ≠ search.token ++ behind)
    (taken : search.takes [c] [] = true) :
    ⟨search.toCandidate, [c], []⟩ ∈ search.replacements [] (c :: search.token) := by
  rw [replacements_passed notFront]
  exact mem_replacements_alone taken

end Search

/-! ### The replacements of a pass -/

def turns {Step : Type} (apply : Step → Text → Text × Nat) : List Step → Text → List (Step × Text)
  | [], _ => []
  | step :: rest, line => (step, line) :: turns apply rest (apply step line).1

section Turns

variable {Step : Type} {apply : Step → Text → Text × Nat} {steps : List Step} {line : Text}

theorem turns_append (earlier later : List Step) (line : Text) :
    turns apply (earlier ++ later) line =
      turns apply earlier line ++ turns apply later (inSequence apply earlier line).1 := by
  induction earlier generalizing line with
  | nil => rfl
  | cons step rest ih => simp only [List.cons_append, turns, ih, inSequence_cons]

theorem mem_of_mem_turns {turn : Step × Text} (member : turn ∈ turns apply steps line) :
    turn.1 ∈ steps := by
  induction steps generalizing line with
  | nil => exact absurd member (by simp [turns])
  | cons step rest ih =>
      rcases List.mem_cons.mp member with rfl | later
      · exact List.mem_cons_self
      · exact List.mem_cons_of_mem step (ih later)

/-- If the replacements of each step lead from the line that it meets to the one that it leaves, those of
all steps lead from the first line to the last one. -/
theorem turns_lead {style : QualifierStyle} {replacements : Step → Text → List Replacement}
    (leads : ∀ step line, Replacement.Lead style (replacements step line) line (apply step line).1 ∧
      (replacements step line).length = (apply step line).2) (steps : List Step) (line : Text) :
    let all := (turns apply steps line).flatMap fun turn => replacements turn.1 turn.2
    Replacement.Lead style all line (inSequence apply steps line).1 ∧
      all.length = (inSequence apply steps line).2 := by
  induction steps generalizing line with
  | nil => exact ⟨rfl, rfl⟩
  | cons step rest ih =>
      obtain ⟨first, counted⟩ := leads step line
      obtain ⟨others, countedOthers⟩ := ih (apply step line).1
      simp only [turns, List.flatMap_cons, inSequence_cons, List.length_append, counted,
        countedOthers, and_true]
      exact first.append others

end Turns

def flatReplacements (candidates : List Candidate) (context : UnitContext) (rules : Rules)
    (line : Text) : List Replacement :=
  (turns (·.apply context rules) candidates line).flatMap fun turn =>
    (turn.1.search context rules).replacements [] turn.2

variable {context : UnitContext} {rules : Rules} {candidates : List Candidate} {line : Text}

theorem accepts_of_mem_flatReplacements {replacement : Replacement}
    (member : replacement ∈ flatReplacements candidates context rules line) :
    replacement.candidate ∈ candidates ∧
      replacement.candidate.accepts context rules replacement.left replacement.right = true := by
  obtain ⟨⟨candidate, met⟩, isTurn, inTurn⟩ := List.mem_flatMap.mp member
  obtain ⟨rfl, taken⟩ := ((candidate.search context rules).scans_apply met).takes_of_mem inTurn
  exact ⟨mem_of_mem_turns isTurn, taken⟩

/-- Candidates that find nothing leave the line to those behind them. -/
theorem mem_flatReplacements_of_not_refersIn {earlier : List Candidate} {candidate : Candidate}
    {replacement : Replacement} (silent : ∀ other ∈ earlier, ¬other.RefersIn context rules line)
    (later : List Candidate)
    (member : replacement ∈ (candidate.search context rules).replacements [] line) :
    replacement ∈ flatReplacements (earlier ++ candidate :: later) context rules line := by
  have unchanged : (inSequence (·.apply context rules) earlier line).1 = line :=
    congrArg Prod.fst (applyCandidates_of_not_refersIn silent)
  rw [flatReplacements, turns_append, unchanged]
  refine List.mem_flatMap.mpr ⟨(candidate, line), ?_, member⟩
  exact List.mem_append_right _ List.mem_cons_self

/-- The replacements of a flat pass lead from the line to its result, and their number is the count. -/
theorem flatReplacements_lead (candidates : List Candidate) (context : UnitContext) (rules : Rules)
    (line : Text) :
    Replacement.Lead rules.style (flatReplacements candidates context rules line) line
        (applyCandidates candidates context rules line).1 ∧
      (flatReplacements candidates context rules line).length =
        (applyCandidates candidates context rules line).2 :=
  turns_lead (fun candidate line => (candidate.search context rules).apply_lead line) candidates line

/-! ### The replacements of a nested pattern -/

namespace NestedPattern

open Text (isAlphabetic)

variable {pattern : NestedPattern} {style : QualifierStyle} {left source result : Text} {count : Nat}

/-- The references that do not go on with a letter are replaced. -/
theorem replacements_right (scans : (pattern.search style).Scans left source result count) :
    ((pattern.search style).replacements left source).map (·.right) =
      (Text.followers pattern.token source).filter (!·.head?.any isAlphabetic) := by
  have followers (behind : Text) : Text.followers pattern.token (pattern.token ++ behind) =
      behind :: Text.followers pattern.token behind :=
    Text.followers_append pattern.token_ne_nil
  induction scans with
  | finished =>
      rw [Search.replacements, Text.followers, if_neg pattern.token_ne_nil]
      rfl
  | passed notFront _ ih =>
      rw [Search.replacements_passed notFront, ih]
      exact congrArg (List.filter _) (Text.followers_passed notFront).symm
  | refused refused _ ih =>
      rw [Search.replacements_refused refused, ih]
      exact (List.filter_cons_of_neg (Bool.eq_false_iff.mp refused)).symm.trans
        (congrArg (List.filter _) (followers _).symm)
  | taken taken _ ih =>
      rw [Search.replacements_taken taken, List.map_cons, ih]
      exact (List.filter_cons_of_pos taken).symm.trans (congrArg (List.filter _) (followers _).symm)

theorem apply_count (pattern : NestedPattern) (style : QualifierStyle) (line : Text) :
    (pattern.apply style line).2 =
      (Text.followers pattern.token line).countP (!·.head?.any isAlphabetic) := by
  have scans := (pattern.search style).scans_apply line
  rw [List.countP_eq_length_filter, ← replacements_right scans, List.length_map,
    scans.length_replacements]
  rfl

end NestedPattern

end NameMigration
