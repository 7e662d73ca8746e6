import Mathlib
import NameMigration.Proofs.Places
import NameMigration.Proofs.Scan
import NameMigration.Proofs.UnitCandidates

/-!
Maximal runs of name characters. A class that is spelled with name characters is looked for within a
run only, and nothing that stands beyond the characters next to the run decides about it. So a flat
pass treats the run and the texts on both sides apart from each other, and it leaves a run that starts
with a protected root alone exactly if the names in it that candidates look for stand behind a dot.
-/

namespace NameMigration

open Text (isAlphabetic isNameChar)

variable {front rest : Text} {c : Char}

namespace Candidate

structure IsSpelled (candidate : Candidate) : Prop where
  qualifier : ∀ c ∈ candidate.rename.legacy.qualifier, isNameChar c = true
  token : ∀ c ∈ candidate.token, isNameChar c = true

variable {candidate : Candidate} {context : UnitContext} {rules : Rules}
  {left right source result line changed : Text} {count : Nat}

theorem accepts_right {other : Text} (same : right.head? = other.head?) :
    candidate.accepts context rules left right = candidate.accepts context rules left other := by
  simp only [accepts, isStandalone, same]

/-- Of the text on the left, only the character that ends a run counts. -/
theorem IsSpelled.accepts_stop (spelled : candidate.IsSpelled) (stop : isNameChar c = false)
    (rest : Text) : candidate.accepts context rules (left ++ c :: rest) right =
      candidate.accepts context rules (left ++ [c]) right := by
  have stops (rest : Text) : ∀ d ∈ (c :: rest).head?, isNameChar d = false := by simp [stop]
  have sameHead : (left ++ c :: rest).head? = (left ++ [c]).head? := by simp
  simp only [accepts, isStandalone, sameHead,
    followsQualifier_append_stop spelled.qualifier (stops _), qualifierBefore?_append_stop (stops _)]

/-- What is accepted in a run is accepted in the run alone. -/
theorem IsSpelled.accepts_of_append (spelled : candidate.IsSpelled) {before after : Text}
    (stops : ∀ c ∈ before.head?, isNameChar c = false)
    (accepted : candidate.accepts context rules (left ++ before) (right ++ after) = true) :
    candidate.accepts context rules left right = true := by
  simp only [accepts, followsQualifier_append_stop spelled.qualifier stops,
    qualifierBefore?_append_stop stops, Bool.and_eq_true] at accepted ⊢
  obtain ⟨⟨standalone, qualified⟩, unprotected⟩ := accepted
  refine ⟨⟨?_, qualified⟩, unprotected⟩
  obtain ⟨leftApart, rightApart⟩ := isStandalone_iff.mp standalone
  refine isStandalone_iff.mpr ⟨?_, ?_⟩
  · cases left with
    | nil => rfl
    | cons c others => exact leftApart
  · cases right with
    | nil => rfl
    | cons c others => exact rightApart

/-! ### Ends of a line -/

theorem IsSpelled.exists_last (spelled : candidate.IsSpelled) :
    ∃ last, candidate.token.getLast? = some last ∧ isNameChar last = true :=
  have isLast := List.getLast?_eq_some_getLast candidate.token_ne_nil
  ⟨_, isLast, spelled.token _ (List.mem_of_getLast? isLast)⟩

theorem IsSpelled.head?_ne_of_stop (spelled : candidate.IsSpelled) (stop : isNameChar c = false)
    (behind : Text) : (candidate.token ++ behind).head? ≠ some c := by
  obtain ⟨first, others, tokenEq⟩ := List.exists_cons_of_ne_nil candidate.token_ne_nil
  have firstName := spelled.token first (by simp [tokenEq])
  rw [tokenEq, List.cons_append, List.head?_cons, ne_eq, Option.some.injEq]
  rintro rfl
  rw [stop] at firstName
  exact absurd firstName (by decide)

theorem IsSpelled.getLast?_of_splices (spelled : candidate.IsSpelled) (stop : isNameChar c = false)
    (splices : candidate.Splices context rules line changed) (ends : line.getLast? = some c) :
    changed.getLast? = some c := by
  cases splices with
  | @intro left right accepted =>
      obtain ⟨last, isLast, lastName⟩ := spelled.exists_last
      cases right with
      | nil =>
          have same : last = c := by simpa [List.getLast?_append, isLast] using ends
          rw [same, stop] at lastName
          exact absurd lastName (by decide)
      | cons d others => simpa [List.getLast?_append] using ends

theorem IsSpelled.head?_of_splices (spelled : candidate.IsSpelled) (stop : isNameChar c = false)
    (splices : candidate.Splices context rules line changed) (starts : line.head? = some c) :
    changed.head? = some c := by
  cases splices with
  | @intro left right accepted =>
      rcases List.eq_nil_or_concat left with rfl | ⟨front, d, rfl⟩
      · exact absurd starts (spelled.head?_ne_of_stop stop right)
      · have same : d = c := by simpa using starts
        subst same
        have stops : ∀ e ∈ [d].head?, isNameChar e = false := by simp [stop]
        rw [List.concat_eq_append, Rename.placeBehind_append_stop spelled.qualifier stops]
        simp

/-! ### Scans around a run -/

/-- A scan that has come to the end of a run goes on from there. -/
theorem Scans.append_stop (spelled : candidate.IsSpelled)
    (scans : candidate.Scans context rules left source result count)
    (stops : ∀ c ∈ source.getLast?, isNameChar c = false) {others : Text} {more : Nat}
    (goesOn : candidate.Scans context rules result.reverse rest others more) :
    candidate.Scans context rules left (source ++ rest) others (more + count) := by
  induction scans using Candidate.scans_induction with
  | finished => simpa using goesOn
  | @passed left d tail result count rejected _ ih =>
      have tailStops : ∀ c ∈ tail.getLast?, isNameChar c = false := by
        intro c isLast
        exact stops c (by simp [List.getLast?_cons, Option.mem_def.mp isLast])
      refine Scans.passed ?_ (ih tailStops goesOn)
      rintro behind (here : d :: tail ++ rest = candidate.token ++ behind)
      obtain ⟨front, last, split⟩ := (List.eq_nil_or_concat (d :: tail)).resolve_left (by simp)
      rw [List.concat_eq_append] at split
      have lastStops : ∀ c ∈ (last :: rest).head?, isNameChar c = false := by
        simpa [split] using stops
      rw [split, List.append_assoc] at here
      obtain ⟨back, rfl, rfl⟩ := Text.exists_eq_append_stop spelled.token lastStops here
      rw [← rejected (back ++ [last]) (by rw [split, List.append_assoc])]
      exact accepts_right (by simp)
  | @replaced left behind result count accepted _ ih =>
      obtain ⟨last, isLast, lastName⟩ := spelled.exists_last
      cases behind with
      | nil =>
          rw [stops last (by simp [isLast])] at lastName
          exact absurd lastName (by decide)
      | cons d tail =>
          have behindStops : ∀ c ∈ (d :: tail).getLast?, isNameChar c = false := by
            intro c isLast
            exact stops c (by simp [List.getLast?_append, Option.mem_def.mp isLast])
          have stillAccepted : candidate.accepts context rules left (d :: tail ++ rest) = true := by
            rw [← accepted]
            exact accepts_right (by simp)
          rw [List.append_assoc, ← Nat.add_assoc]
          exact Scans.replaced stillAccepted (ih behindStops goesOn)

/-- A scan in a run does not depend on what stands in front of the run. -/
theorem Scans.behind_stop (spelled : candidate.IsSpelled) (stop : isNameChar c = false)
    (scans : candidate.Scans context rules left source result count) (front : Text)
    (starts : left = front ++ [c]) (rest : Text) :
    candidate.Scans context rules (front ++ c :: rest) source (rest.reverse ++ result) count := by
  have stops (rest : Text) : ∀ d ∈ (c :: rest).head?, isNameChar d = false := by simp [stop]
  induction scans using Candidate.scans_induction generalizing front with
  | finished =>
      subst starts
      have finished : candidate.Scans context rules (front ++ c :: rest) []
        (front ++ c :: rest).reverse 0 := Scans.finished
      simpa using finished
  | @passed left d tail result count rejected _ ih =>
      subst starts
      refine Scans.passed ?_ (ih (d :: front) rfl)
      intro behind here
      rw [spelled.accepts_stop stop]
      exact rejected behind here
  | @replaced left behind result count accepted _ ih =>
      subst starts
      refine Scans.replaced ?_ ?_
      · rw [spelled.accepts_stop stop]
        exact accepted
      · rw [Rename.placeBehind_append_stop spelled.qualifier (stops rest)]
        exact ih _ (Rename.placeBehind_append_stop spelled.qualifier (stops []) rules.style)

/-- The same of a text that a run ends in front of. -/
theorem IsSpelled.scans_behind (spelled : candidate.IsSpelled) (context : UnitContext)
    (rules : Rules) (stops : ∀ c ∈ source.head?, isNameChar c = false) (left : Text) :
    candidate.Scans context rules left source
      (left.reverse ++ (candidate.apply context rules source).1)
      (candidate.apply context rules source).2 := by
  cases source with
  | nil =>
      rw [apply, Search.apply, Search.scan, List.reverse_nil, List.append_nil]
      exact Scans.finished
  | cons c rest =>
      have stop := stops c (by simp)
      have notFront : ∀ behind, c :: rest ≠ (candidate.search context rules).token ++ behind :=
        fun behind here => spelled.head?_ne_of_stop stop behind (congrArg List.head? here).symm
      have behindFirst := (candidate.search context rules).scans_scan [c] rest
      rw [apply, Search.apply, Search.scan_passed notFront]
      exact Search.Scans.passed notFront (Scans.behind_stop spelled stop behindFirst [] rfl left)

/-- A run in which the candidate finds nothing is passed in any line. -/
theorem IsSpelled.scans_over (spelled : candidate.IsSpelled) {run before after : Text}
    (silent : ¬candidate.RefersIn context rules run)
    (stopsBefore : ∀ c ∈ before.head?, isNameChar c = false)
    (stopsAfter : ∀ c ∈ after.head?, isNameChar c = false)
    (goesOn : candidate.Scans context rules (run.reverse ++ before) after result count) :
    candidate.Scans context rules before (run ++ after) result count := by
  have general : ∀ front rest, run = front ++ rest →
      candidate.Scans context rules (front.reverse ++ before) (rest ++ after) result count := by
    intro front rest split
    induction rest generalizing front with
    | nil =>
        rw [List.append_nil] at split
        exact split ▸ goesOn
    | cons d others ih =>
        have next := ih (front ++ [d]) (by simp [split])
        rw [List.reverse_append] at next
        refine Scans.passed ?_ next
        rintro behind (here : d :: others ++ after = candidate.token ++ behind)
        obtain ⟨back, spelledOut, rfl⟩ :=
          Text.exists_eq_append_stop spelled.token stopsAfter here
        apply Bool.eq_false_iff.mpr
        intro accepted
        exact silent ⟨front.reverse, back, by rw [split, spelledOut, List.reverse_reverse],
          spelled.accepts_of_append stopsBefore accepted⟩
  exact general [] run rfl

theorem apply_nil : candidate.apply context rules [] = ([], 0) := by
  rw [apply, Search.apply, Search.scan, List.reverse_nil]

theorem IsSpelled.stops_before_apply (spelled : candidate.IsSpelled) (context : UnitContext)
    (rules : Rules) (stops : ∀ c ∈ line.getLast?, isNameChar c = false) :
    ∀ c ∈ (candidate.apply context rules line).1.getLast?, isNameChar c = false := by
  cases ends : line.getLast? with
  | none => simp [List.getLast?_eq_none_iff.mp ends, apply_nil]
  | some last =>
      have stop := stops last (by simp [ends])
      have kept := (candidate.scans_apply context rules line).preserves
        (motive := fun text => text.getLast? = some last)
        (fun _ _ splices => spelled.getLast?_of_splices stop splices) ends
      intro c isLast
      rw [kept, Option.mem_some_iff] at isLast
      exact isLast ▸ stop

theorem IsSpelled.stops_after_apply (spelled : candidate.IsSpelled) (context : UnitContext)
    (rules : Rules) (stops : ∀ c ∈ line.head?, isNameChar c = false) :
    ∀ c ∈ (candidate.apply context rules line).1.head?, isNameChar c = false := by
  cases starts : line.head? with
  | none => simp [List.head?_eq_none_iff.mp starts, apply_nil]
  | some first =>
      have stop := stops first (by simp [starts])
      have kept := (candidate.scans_apply context rules line).preserves
        (motive := fun text => text.head? = some first)
        (fun _ _ splices => spelled.head?_of_splices stop splices) starts
      intro c isFirst
      rw [kept, Option.mem_some_iff] at isFirst
      exact isFirst ▸ stop

theorem IsSpelled.apply_around (spelled : candidate.IsSpelled) {run before after : Text}
    (silent : ¬candidate.RefersIn context rules run)
    (stopsBefore : ∀ c ∈ before.getLast?, isNameChar c = false)
    (stopsAfter : ∀ c ∈ after.head?, isNameChar c = false) :
    candidate.apply context rules (before ++ (run ++ after)) =
      ((candidate.apply context rules before).1 ++ (run ++ (candidate.apply context rules after).1),
        (candidate.apply context rules before).2 + (candidate.apply context rules after).2) := by
  have upToRun := candidate.scans_apply context rules before
  have stopsThen : ∀ c ∈ (candidate.apply context rules before).1.reverse.head?,
      isNameChar c = false := by simpa using spelled.stops_before_apply context rules stopsBefore
  have behindRun := spelled.scans_behind context rules stopsAfter
    (run.reverse ++ (candidate.apply context rules before).1.reverse)
  have fromRun := spelled.scans_over silent stopsThen stopsAfter behindRun
  have whole := (upToRun.append_stop spelled stopsBefore fromRun).eq_scan
  rw [apply, Search.apply, whole]
  simp [Nat.add_comm]

end Candidate

variable {context : UnitContext} {rules : Rules} {root run : Text}

/-- What a pass makes of the texts on both sides of a run in which nothing is found. -/
theorem applyCandidates_around {candidates : List Candidate} {before after : Text}
    (spelled : ∀ candidate ∈ candidates, candidate.IsSpelled)
    (silent : ∀ candidate ∈ candidates, ¬candidate.RefersIn context rules run)
    (stopsBefore : ∀ c ∈ before.getLast?, isNameChar c = false)
    (stopsAfter : ∀ c ∈ after.head?, isNameChar c = false) :
    applyCandidates candidates context rules (before ++ (run ++ after)) =
      ((applyCandidates candidates context rules before).1 ++
          (run ++ (applyCandidates candidates context rules after).1),
        (applyCandidates candidates context rules before).2 +
          (applyCandidates candidates context rules after).2) := by
  induction candidates generalizing before after with
  | nil => rfl
  | cons candidate rest ih =>
      have isSpelled := spelled candidate (by simp)
      have first := isSpelled.apply_around (silent candidate (by simp)) stopsBefore stopsAfter
      have others := ih (fun other member => spelled other (List.mem_cons_of_mem candidate member))
        (fun other member => silent other (List.mem_cons_of_mem candidate member))
        (isSpelled.stops_before_apply context rules stopsBefore)
        (isSpelled.stops_after_apply context rules stopsAfter)
      simp only [applyCandidates_cons, first, others]
      congr 1
      omega

/-- Whether a flat pass leaves the run alone wherever it stands as a maximal run of name characters:
what stands on both sides is treated as if it stood there alone, and nothing more is counted. -/
def UnitContext.KeepsRun (context : UnitContext) (rules : Rules) (run : Text) : Prop :=
  let pass := applyCandidates context.candidates context rules
  ∀ before after, (∀ c ∈ before.getLast?, isNameChar c = false) →
    (∀ c ∈ after.head?, isNameChar c = false) →
      pass (before ++ (run ++ after)) =
        ((pass before).1 ++ (run ++ (pass after).1), (pass before).2 + (pass after).2)

theorem UnitContext.keepsRun_iff_not_refersIn
    (spelled : ∀ candidate ∈ context.candidates, candidate.IsSpelled) :
    context.KeepsRun rules run ↔
      ∀ candidate ∈ context.candidates, ¬candidate.RefersIn context rules run := by
  constructor
  · intro kept
    have nothing : applyCandidates context.candidates context rules [] = ([], 0) := by
      refine applyCandidates_of_not_refersIn fun candidate _ => ?_
      rw [← Candidate.apply_count_eq_zero_iff, Candidate.apply_nil]
    have alone := kept [] [] (by simp) (by simp)
    simp only [nothing, List.nil_append, List.append_nil] at alone
    exact applyCandidates_count_eq_zero_iff.mp (congrArg Prod.snd alone)
  · intro silent before after stopsBefore stopsAfter
    exact applyCandidates_around spelled silent stopsBefore stopsAfter

theorem Rename.searchToken_subset (rename : Rename) (isImported : Bool) :
    rename.searchToken isImported ⊆ rename.legacy.qualified := by
  have whole : (if isImported then rename.legacy.name else rename.legacy.qualified) ⊆
      rename.legacy.qualified := by
    split
    · exact List.subset_append_right _ _
    · exact List.Subset.refl _
  simp only [searchToken]
  split
  · rename_i first last parts
    intro c member
    exact whole (Text.mem_of_mem_segments (by rw [parts]; simp) member).1
  · exact whole

theorem UnitContext.isSpelled_of_mem_candidates {candidate : Candidate}
    (member : candidate ∈ context.candidates)
    (names : ∀ c ∈ candidate.rename.legacy.qualified, isNameChar c = true) :
    candidate.IsSpelled where
  qualifier c inQualifier := names c (List.mem_append_left _ inQualifier)
  token c inToken := by
    obtain ⟨isImported, _, token⟩ := mem_candidates_iff.mp member
    exact names c (candidate.rename.searchToken_subset isImported (token ▸ inToken))

/-! ### Names in a run -/

namespace Candidate

variable {candidate : Candidate}

/-- Whether the text that refers to the class stands in the run as a name of its own. -/
def StandsIn (candidate : Candidate) (run front back : Text) : Prop :=
  run = front ++ (candidate.token ++ back) ∧ isStandalone front.reverse back = true

theorem forall_standsIn_iff {good : Text → Prop} :
    (∀ front back, candidate.StandsIn run front back → good front) ↔
      ∀ front back, run = front ++ (candidate.token ++ back) →
        isStandalone front.reverse back = true → good front := by
  simp only [StandsIn, and_imp]

instance (candidate : Candidate) (run : Text) (good : Text → Prop) [DecidablePred good] :
    Decidable (∀ front back, candidate.StandsIn run front back → good front) :=
  decidable_of_iff _ forall_standsIn_iff.symm

/-- Whether the name belongs to a class from elsewhere where `front` stands in front of it. -/
def IsForeignBehind (candidate : Candidate) (context : UnitContext) (front : Text) : Prop :=
  context.isForeign candidate.token = true ∧
    followsQualifier candidate.rename.legacy.qualifier front.reverse = false

instance (candidate : Candidate) (context : UnitContext) (front : Text) :
    Decidable (candidate.IsForeignBehind context front) :=
  inferInstanceAs (Decidable (_ ∧ _))

theorem not_refersIn_iff_of_names (names : ∀ c ∈ run, isNameChar c = true) :
    ¬candidate.RefersIn context rules run ↔
      ∀ front back, candidate.StandsIn run front back → candidate.IsForeignBehind context front ∨
        (front.getLast? = some '.' ∧ isProtected rules.protectedRoots front = true) := by
  have refused : ∀ front back, run = front ++ (candidate.token ++ back) →
      isStandalone front.reverse back = true →
      (candidate.accepts context rules front.reverse back = false ↔
        candidate.IsForeignBehind context front ∨
          (front.getLast? = some '.' ∧ isProtected rules.protectedRoots front = true)) := by
    intro front back here standalone
    have frontNames : ∀ c ∈ front, isNameChar c = true := fun c member =>
      names c (here ▸ List.mem_append_left _ member)
    rw [accepts, standalone, qualifierBefore?_names frontNames, IsForeignBehind]
    cases context.isForeign candidate.token <;>
      cases followsQualifier candidate.rename.legacy.qualifier front.reverse <;>
      by_cases dotted : front.getLast? = some '.' <;> simp [dotted]
  constructor
  · rintro silent front back ⟨here, standalone⟩
    refine (refused front back here standalone).mp (Bool.eq_false_iff.mpr fun accepted => ?_)
    exact silent ⟨front.reverse, back, by rw [here, List.reverse_reverse], accepted⟩
  · rintro allRefused ⟨left, right, here, accepted⟩
    have standalone := isStandalone_of_accepts accepted
    rw [← List.reverse_reverse left] at standalone accepted
    have refusedHere := (refused left.reverse right here standalone).mpr
      (allRefused left.reverse right ⟨here, standalone⟩)
    exact absurd (accepted.symm.trans refusedHere) (by decide)

end Candidate

/-- A run that starts with a protected root is left alone exactly if each name in it that a candidate
looks for belongs to a class from elsewhere or stands behind a dot with something protected in front
of it. Where no such name starts within the root, the dot is enough. Names behind a digit, an
underscore or a dollar sign stand alone too, but protection does not reach them. -/
theorem keepsRun_iff (context : UnitContext) (rules : Rules)
    (names : ∀ candidate ∈ context.candidates,
      ∀ c ∈ candidate.rename.legacy.qualified, isNameChar c = true)
    (root rest : Text) (isRoot : root ∈ rules.protectedRoots) (nonempty : root ≠ [])
    (isRun : ∀ c ∈ root ++ '.' :: rest, isNameChar c = true) :
    (context.KeepsRun rules (root ++ '.' :: rest) ↔ ∀ candidate ∈ context.candidates,
      ∀ front back, candidate.StandsIn (root ++ '.' :: rest) front back →
        candidate.IsForeignBehind context front ∨
          (front.getLast? = some '.' ∧ isProtected rules.protectedRoots front = true)) ∧
    ((∀ candidate ∈ context.candidates, ∀ front back,
        candidate.StandsIn (root ++ '.' :: rest) front back → root ++ ['.'] <+: front) →
      (context.KeepsRun rules (root ++ '.' :: rest) ↔ ∀ candidate ∈ context.candidates,
        ∀ front back, candidate.StandsIn (root ++ '.' :: rest) front back →
          candidate.IsForeignBehind context front ∨ front.getLast? = some '.')) := by
  have spelled : ∀ candidate ∈ context.candidates, candidate.IsSpelled := fun candidate member =>
    UnitContext.isSpelled_of_mem_candidates member (names candidate member)
  have atPlaces : context.KeepsRun rules (root ++ '.' :: rest) ↔
      ∀ candidate ∈ context.candidates, ∀ front back,
        candidate.StandsIn (root ++ '.' :: rest) front back →
          candidate.IsForeignBehind context front ∨
            (front.getLast? = some '.' ∧ isProtected rules.protectedRoots front = true) := by
    rw [UnitContext.keepsRun_iff_not_refersIn spelled]
    exact forall₂_congr fun candidate _ => Candidate.not_refersIn_iff_of_names isRun
  refine ⟨atPlaces, fun behindRoot => atPlaces.trans ?_⟩
  refine forall₂_congr fun candidate member => forall₃_congr fun front back stands => ?_
  have protectedFront : isProtected rules.protectedRoots front = true := by
    obtain ⟨more, starts⟩ := behindRoot candidate member front back stands
    exact isProtected_iff.mpr ⟨root, isRoot, nonempty,
      inNamespace_iff.mpr (Or.inr ⟨more, by simp [← starts]⟩)⟩
  simp [protectedFront]

def pipeRules : Rules := ⟨"p".toList, ["lib".toList], [], .legacy⟩

def pipeContext : UnitContext :=
  .ofLines (.ofLines ["p/q/Pipe r/Tube".toList]) pipeRules.legacyNamespace
    ["import p.q.Pipe;".toList]

theorem keepsRun_libPipe :
    (∀ candidate ∈ pipeContext.candidates,
        ∀ c ∈ candidate.rename.legacy.qualified, isNameChar c = true) ∧
      pipeContext.candidates.map (·.token) = ["Pipe".toList] ∧
      pipeContext.KeepsRun pipeRules "lib.v1_8.Pipe".toList := by
  have allNames : ∀ candidate ∈ pipeContext.candidates,
      candidate.rename.legacy.qualified.all isNameChar = true := by decide +kernel
  have names : ∀ candidate ∈ pipeContext.candidates,
      ∀ c ∈ candidate.rename.legacy.qualified, isNameChar c = true :=
    fun candidate member => List.all_eq_true.mp (allNames candidate member)
  have isRun : ∀ c ∈ "lib".toList ++ '.' :: "v1_8.Pipe".toList, isNameChar c = true :=
    List.all_eq_true.mp (by decide)
  have behindRoot : ∀ candidate ∈ pipeContext.candidates, ∀ front back,
      candidate.StandsIn ("lib".toList ++ '.' :: "v1_8.Pipe".toList) front back →
        "lib".toList ++ ['.'] <+: front := by decide +kernel
  have behindDot : ∀ candidate ∈ pipeContext.candidates, ∀ front back,
      candidate.StandsIn ("lib".toList ++ '.' :: "v1_8.Pipe".toList) front back →
        candidate.IsForeignBehind pipeContext front ∨ front.getLast? = some '.' := by
    decide +kernel
  exact ⟨names, by cbv,
    ((keepsRun_iff pipeContext pipeRules names "lib".toList "v1_8.Pipe".toList (by decide)
      (by decide) isRun).2 behindRoot).mpr behindDot⟩

/-- Behind an underscore the name is replaced, although what it belongs to is protected. -/
theorem libPipe_replaced :
    "lib".toList ∈ pipeRules.protectedRoots ∧
      (∀ candidate ∈ pipeContext.candidates, ¬candidate.token <:+: "lib".toList) ∧
      (∀ c ∈ "lib.Craft_Pipe".toList, isNameChar c = true) ∧
      (applyCandidates pipeContext.candidates pipeContext pipeRules
        "lib.Craft_Pipe pipe;".toList).1 = "lib.Craft_p.q.Tube pipe;".toList :=
  ⟨by decide, by decide +kernel, List.all_eq_true.mp (by decide), by cbv⟩

end NameMigration
