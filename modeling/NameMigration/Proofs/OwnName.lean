import Mathlib
import NameMigration.Proofs.Scan
import NameMigration.Proofs.UnitCandidates
import NameMigration.Unit.Migration

/-!
A line that is nothing but the name of an imported class. No candidate in front of its own can find
anything there, its own one replaces the whole line, and the candidates behind it go on with what was
put in its place. So the class gets its own new name exactly when none of these refers to something
in the replacement; two classes that swap their names show that one may.
-/

namespace NameMigration

def Rename.replacement (rename : Rename) (style : QualifierStyle) : Text :=
  match style with
  | .legacy => rename.legacy.qualifier ++ rename.target.name
  | .mapped => rename.target.qualified

theorem Rename.placeBehind_nil (rename : Rename) (style : QualifierStyle) :
    rename.placeBehind style [] = (rename.replacement style).reverse := by
  cases style with
  | legacy => by_cases empty : rename.legacy.qualifier = [] <;>
      simp [placeBehind, replacement, followsQualifier, empty]
  | mapped => simp [placeBehind, replacement]

theorem qualifierBefore?_nil : qualifierBefore? [] = none := rfl

namespace Candidate

variable {candidate : Candidate} {context : UnitContext} {rules : Rules}

theorem apply_token (native : context.isForeign candidate.token = false) :
    candidate.apply context rules candidate.token =
      (candidate.rename.replacement rules.style, 1) := by
  have accepted : candidate.accepts context rules [] [] = true := by
    simp [accepts, isStandalone, qualifierBefore?_nil, native]
  have taken : (candidate.search context rules).takes [] [] = true := accepted
  have scanned := Search.scan_taken taken
  rw [List.append_nil, Search.scan, Rename.placeBehind_nil, List.reverse_reverse] at scanned
  exact scanned

end Candidate

def UnitContext.candidatesBehind (context : UnitContext) (token : Text) : List Candidate :=
  (context.candidates.dropWhile fun candidate => candidate.token ≠ token).tail

namespace UnitContext

variable {context : UnitContext} {rules : Rules} {rename : Rename}

theorem candidates_split (own : Candidate) (member : own ∈ context.candidates) :
    ∃ earlier first, context.candidates = earlier ++ first :: context.candidatesBehind own.token ∧
      first.token = own.token ∧ (∀ candidate ∈ earlier, candidate.token ≠ own.token ∧
        own.token.utf8Length ≤ candidate.token.utf8Length) := by
  have parts := List.takeWhile_append_dropWhile
    (p := fun candidate => decide (candidate.token ≠ own.token)) (l := context.candidates)
  have stops : (context.candidates.dropWhile fun candidate =>
      decide (candidate.token ≠ own.token)) ≠ [] := by
    intro nothing
    have skipped := List.dropWhile_eq_nil_iff.mp nothing own member
    simp at skipped
  obtain ⟨first, later, dropped⟩ := List.exists_cons_of_ne_nil stops
  have firstToken : first.token = own.token := by
    have notSkipped := List.head_dropWhile_not
      (fun candidate : Candidate => decide (candidate.token ≠ own.token)) stops
    simpa only [dropped, List.head_cons, decide_eq_false_iff_not, ne_eq, Decidable.not_not]
      using notSkipped
  have split : context.candidates = (context.candidates.takeWhile fun candidate =>
      decide (candidate.token ≠ own.token)) ++ first :: context.candidatesBehind own.token := by
    rw [candidatesBehind, dropped, List.tail_cons, ← dropped, parts]
  refine ⟨_, first, split, firstToken, ?_⟩
  intro candidate earlier
  have ordered := context.candidates_ordered
  rw [split, List.pairwise_append] at ordered
  have longer := ordered.2.2 candidate earlier first (by simp)
  rw [firstToken] at longer
  exact ⟨by simpa using List.mem_takeWhile_imp earlier, longer⟩

theorem applyCandidates_key (imported : rename ∈ context.explicit)
    (proper : [] ∉ rename.key.segments) (simple : rename.key.segments.length = 1)
    (native : context.isForeign rename.key = false)
    (unrivalled : ∀ candidate ∈ context.candidates, candidate.token = rename.key →
      candidate.rename = rename) :
    applyCandidates context.candidates context rules rename.key =
      ((applyCandidates (context.candidatesBehind rename.key) context rules
          (rename.replacement rules.style)).1,
        (applyCandidates (context.candidatesBehind rename.key) context rules
          (rename.replacement rules.style)).2 + 1) := by
  have nonempty : rename.key ≠ [] := by
    intro empty
    rw [empty] at proper
    exact proper (by simp [Text.segments])
  let own : Candidate := ⟨rename, rename.key, nonempty⟩
  have member : own ∈ context.candidates := mem_candidates_iff.mpr
    ⟨true, mem_renames_iff.mpr (Or.inl ⟨rfl, imported⟩), (Rename.searchToken_of_simple simple).symm⟩
  obtain ⟨earlier, first, split, firstToken, longer⟩ := candidates_split own member
  have firstRename : first.rename = rename :=
    unrivalled first (by rw [split]; simp) firstToken
  have silent : applyCandidates earlier context rules rename.key = (rename.key, 0) :=
    applyCandidates_of_not_refersIn fun candidate before =>
      Candidate.not_refersIn_of_long (longer candidate before).1 (longer candidate before).2
  have replaced : first.apply context rules rename.key = (rename.replacement rules.style, 1) := by
    have firstNative : context.isForeign first.token = false := by rwa [firstToken]
    have whole : first.apply context rules first.token = _ := Candidate.apply_token firstNative
    rwa [firstToken, firstRename] at whole
  have behind : context.candidatesBehind own.token = context.candidatesBehind rename.key := rfl
  rw [split, applyCandidates_append, silent, applyCandidates_cons, replaced, behind]
  simp only [Nat.zero_add, Nat.add_comm]

end UnitContext

/-- What becomes of the bare name of an imported class depends on the candidates behind its own: they
go on with its replacement. The replacement stays untouched exactly when none of them refers to
something in it. -/
theorem applyCandidates_key_eq_replacement_iff (entries lines : List Text) (rules : Rules)
    (rename : Rename)
    (imported : rename ∈ (UnitContext.ofLines (.ofLines entries) rules.legacyNamespace lines).explicit)
    (simple : rename.key.segments.length = 1)
    (native : (UnitContext.ofLines (.ofLines entries) rules.legacyNamespace lines).isForeign
      rename.key = false)
    (unrivalled : ∀ candidate ∈
        (UnitContext.ofLines (.ofLines entries) rules.legacyNamespace lines).candidates,
      candidate.token = rename.key → candidate.rename = rename) :
    let context := UnitContext.ofLines (.ofLines entries) rules.legacyNamespace lines
    let replacement := rename.replacement rules.style
    let result := applyCandidates context.candidates context rules rename.key
    let later := applyCandidates (context.candidatesBehind rename.key) context rules replacement
    (result.1 = replacement ↔ later.1 = replacement) ∧
      (result = (replacement, 1) ↔ ∀ candidate ∈ context.candidatesBehind rename.key,
        ¬candidate.RefersIn context rules replacement) := by
  intro context replacement result later
  obtain ⟨content, read⟩ := Mapping.ofEntry?_of_mem_ofLines (UnitContext.mem_of_mem_explicit imported)
  have proper := (Rename.nil_notMem_segments_of_ofEntry? read).1
  have goesOn : result = (later.1, later.2 + 1) :=
    UnitContext.applyCandidates_key imported proper simple native unrivalled
  rw [goesOn]
  refine ⟨Iff.rfl, ?_⟩
  constructor
  · intro same
    have once := congrArg Prod.snd same
    exact applyCandidates_count_eq_zero_iff.mp (Nat.succ.inj once)
  · intro silent
    have idle : later = (replacement, 0) := applyCandidates_of_not_refersIn silent
    rw [idle]

/-! Chest and crate swap their names, so of two imported ones the first is renamed back. -/

def swapEntries : List Text :=
  ["p/q/Chest p/q/Crate".toList, "p/q/Crate p/q/Chest".toList, "p/q/Box p/q/Bin".toList]

def swapImports : List Text :=
  ["import p.q.Box;".toList, "import p.q.Chest;".toList, "import p.q.Crate;".toList]

def swapRules : Rules := ⟨"p.q".toList, [], [], .legacy⟩

def swapContext : UnitContext :=
  UnitContext.ofLines (.ofLines swapEntries) swapRules.legacyNamespace swapImports

def chestToCrate : Rename :=
  ⟨⟨"p.q.".toList, "Chest".toList⟩, ⟨"p.q.".toList, "Crate".toList⟩⟩

def crateToChest : Rename :=
  ⟨⟨"p.q.".toList, "Crate".toList⟩, ⟨"p.q.".toList, "Chest".toList⟩⟩

theorem swapContext_unrivalled {rename : Rename}
    (checked : ∀ pair ∈ swapContext.renames, pair.1.searchToken pair.2 = rename.key → pair.1 = rename) :
    ∀ candidate ∈ swapContext.candidates, candidate.token = rename.key → candidate.rename = rename := by
  intro candidate member same
  obtain ⟨isImported, inRenames, token⟩ := UnitContext.mem_candidates_iff.mp member
  exact checked _ inRenames (token.symm.trans same)

theorem crate_eq_replacement :
    crateToChest ∈ swapContext.explicit ∧ crateToChest.key.segments.length = 1 ∧
      swapContext.isForeign crateToChest.key = false ∧
      (∀ candidate ∈ swapContext.candidates, candidate.token = crateToChest.key →
        candidate.rename = crateToChest) ∧
      applyCandidates swapContext.candidates swapContext swapRules crateToChest.key =
        (crateToChest.replacement .legacy, 1) := by
  have imported : crateToChest ∈ swapContext.explicit := by decide +kernel
  have simple : crateToChest.key.segments.length = 1 := by decide +kernel
  have native : swapContext.isForeign crateToChest.key = false := by decide +kernel
  have unrivalled : ∀ candidate ∈ swapContext.candidates, candidate.token = crateToChest.key →
      candidate.rename = crateToChest := swapContext_unrivalled (by decide +kernel)
  have idle : (applyCandidates (swapContext.candidatesBehind crateToChest.key) swapContext swapRules
      (crateToChest.replacement .legacy)).2 = 0 := by cbv
  exact ⟨imported, simple, native, unrivalled,
    (applyCandidates_key_eq_replacement_iff swapEntries swapImports swapRules crateToChest imported
      simple native unrivalled).2.mpr (applyCandidates_count_eq_zero_iff.mp idle)⟩

theorem chest_renamed_back :
    chestToCrate ∈ swapContext.explicit ∧ chestToCrate.key.segments.length = 1 ∧
      swapContext.isForeign chestToCrate.key = false ∧
      (∀ candidate ∈ swapContext.candidates, candidate.token = chestToCrate.key →
        candidate.rename = chestToCrate) ∧
      chestToCrate.replacement .legacy = "p.q.Crate".toList ∧
      (applyCandidates swapContext.candidates swapContext swapRules chestToCrate.key).1 =
        "p.q.Chest".toList :=
  ⟨by decide +kernel, by decide +kernel, by decide +kernel,
    swapContext_unrivalled (by decide +kernel), by decide +kernel, by cbv⟩

end NameMigration
