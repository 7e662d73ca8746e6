import Mathlib
import NameMigration.Proofs.CursorScan

/-!
The scan of a candidate in the legacy style, as the splices that it makes in the line. Each takes the
token alone and is decided by the text written so far and the line behind it. The main statement says
which splices those are, and that the cursor over byte offsets makes the same ones.
-/

namespace NameMigration

namespace Rename

variable {rename : Rename} {front back splices : List Splice}

def InsertsLegacy (rename : Rename) (splices : List Splice) : Prop :=
  ∀ earlier splice later, splices = earlier ++ splice :: later →
    splice.inserted = rename.legacyForm (Splice.result earlier splice.gap)

theorem InsertsLegacy.of_append (inserts : rename.InsertsLegacy (front ++ back)) :
    rename.InsertsLegacy front := by
  rintro earlier splice later rfl
  exact inserts earlier splice (later ++ back) (by simp)

theorem InsertsLegacy.writeAll_eq (inserts : rename.InsertsLegacy splices) (rest : Text) :
    rename.writeAll .legacy [] (splices.map (·.gap)) ++ rest = Splice.result splices rest := by
  induction splices using List.reverseRecOn generalizing rest with
  | nil => rfl
  | append_singleton earlier splice ih =>
      obtain ⟨before, last⟩ := forall_split_concat_iff.mp inserts
      rw [List.map_append, List.map_singleton, writeAll_concat, Splice.result_concat, last,
        writeBehind_legacy, ih before, List.append_assoc]

theorem exists_insertsLegacy (rename : Rename) (token : Text) (gaps : List Text) :
    ∃ splices : List Splice, splices.map (·.gap) = gaps ∧
      (∀ splice ∈ splices, splice.taken = token) ∧ rename.InsertsLegacy splices := by
  induction gaps using List.reverseRecOn with
  | nil => exact ⟨[], rfl, by simp, by simp [InsertsLegacy]⟩
  | append_singleton gaps gap ih =>
      obtain ⟨earlier, sameGaps, taken, inserts⟩ := ih
      refine ⟨earlier ++ [⟨gap, token, rename.legacyForm (Splice.result earlier gap)⟩],
        by simp [sameGaps], ?_, ?_⟩
      · intro splice member
        rcases List.mem_append.mp member with old | new
        · exact taken splice old
        · rw [List.mem_singleton.mp new]
      · exact forall_split_concat_iff.mpr ⟨inserts, rfl⟩

end Rename

namespace Candidate

variable {candidate : Candidate} {context : UnitContext} {rules : Rules}
  {line rest : Text} {splices : List Splice}

structure LegacySplice (candidate : Candidate) (context : UnitContext) (rules : Rules)
    (earlier : List Splice) (splice : Splice) (behind : Text) : Prop where
  taken : splice.taken = candidate.token
  inserted : splice.inserted = candidate.rename.legacyForm (Splice.result earlier splice.gap)
  next : candidate.IsNext context rules (Splice.result earlier []) splice.gap behind

/-- Whether the splices are those of a scan in the legacy style, and none follows in the rest. -/
structure IsLegacyScan (candidate : Candidate) (context : UnitContext) (rules : Rules)
    (splices : List Splice) (rest : Text) : Prop where
  each : ∀ earlier splice later, splices = earlier ++ splice :: later →
    candidate.LegacySplice context rules earlier splice (Splice.source later rest)
  passesRest : candidate.PassesOver context rules (Splice.result splices []) rest []

theorem IsLegacyScan.taken (scan : candidate.IsLegacyScan context rules splices rest) :
    ∀ splice ∈ splices, splice.taken = candidate.token := by
  intro splice member
  obtain ⟨earlier, later, split⟩ := List.append_of_mem member
  exact (scan.each earlier splice later split).taken

theorem IsLegacyScan.inserts (scan : candidate.IsLegacyScan context rules splices rest) :
    candidate.rename.InsertsLegacy splices :=
  fun earlier splice later split => (scan.each earlier splice later split).inserted

theorem isLegacyScan_iff (legacyStyle : rules.style = .legacy)
    (taken : ∀ splice ∈ splices, splice.taken = candidate.token)
    (inserts : candidate.rename.InsertsLegacy splices) :
    candidate.IsLegacyScan context rules splices rest ↔
      candidate.IsDivision context rules [] (splices.map (·.gap)) rest := by
  have written (earlier later : List Splice) (split : splices = earlier ++ later) :
      candidate.rename.writeAll rules.style [] (earlier.map (·.gap)) = Splice.result earlier [] := by
    subst split
    rw [legacyStyle, ← inserts.of_append.writeAll_eq, List.append_nil]
  have behind (earlier later : List Splice) (split : splices = earlier ++ later) :
      Text.withGaps candidate.token (later.map (·.gap)) rest = Splice.source later rest := by
    subst split
    rw [Splice.source_of_taken fun splice member =>
      taken splice (List.mem_append_right earlier member)]
  constructor
  · intro scan
    refine ⟨fun earlier gap later split => ?_, ?_⟩
    · obtain ⟨front, others, whole, rfl, sameOthers⟩ := List.map_eq_append_iff.mp split
      obtain ⟨splice, back, rfl, rfl, rfl⟩ := List.map_eq_cons_iff.mp sameOthers
      rw [written front _ whole, behind (front ++ [splice]) back (by simp [whole])]
      exact (scan.each front splice back whole).next
    · rw [written splices [] (List.append_nil _).symm]
      exact scan.passesRest
  · intro division
    refine ⟨fun earlier splice later split => ?_, ?_⟩
    · have member : splice ∈ splices := by simp [split]
      have next := division.each (earlier.map (·.gap)) splice.gap (later.map (·.gap))
        (by simp [split])
      rw [written earlier _ split, behind (earlier ++ [splice]) later (by simp [split])] at next
      exact ⟨taken splice member, inserts earlier splice later split, next⟩
    · have passes := division.passesRest
      rwa [written splices [] (List.append_nil _).symm] at passes

/-- The scan of a line in the legacy style makes exactly these splices, and their number is the count
of the scan. The cursor over bytes makes the same ones and never cuts a character. -/
theorem apply_eq_iff_legacyScan (legacyStyle : rules.style = .legacy) :
    (∀ result count, candidate.apply context rules line = (result, count) ↔
      ∃ splices rest, line = Splice.source splices rest ∧ result = Splice.result splices rest ∧
        count = splices.length ∧ candidate.IsLegacyScan context rules splices rest) ∧
    candidate.applyFrom context rules line 0 = some (candidate.apply context rules line) := by
  refine ⟨fun result count => ?_, applyFrom_zero line⟩
  rw [apply_eq_iff_division, legacyStyle]
  constructor
  · rintro ⟨gaps, rest, here, written, counted, division⟩
    obtain ⟨splices, rfl, taken, inserts⟩ :=
      candidate.rename.exists_insertsLegacy candidate.token gaps
    refine ⟨splices, rest, ?_, ?_, ?_, (isLegacyScan_iff legacyStyle taken inserts).mpr division⟩
    · rw [here, Splice.source_of_taken taken]
    · rw [written, inserts.writeAll_eq]
    · rw [counted, List.length_map]
  · rintro ⟨splices, rest, here, written, counted, scan⟩
    refine ⟨splices.map (·.gap), rest, ?_, ?_, ?_,
      (isLegacyScan_iff legacyStyle scan.taken scan.inserts).mp scan⟩
    · rw [here, Splice.source_of_taken scan.taken]
    · rw [written, scan.inserts.writeAll_eq]
    · rw [counted, List.length_map]

end Candidate

/-! Of these jars the first is part of another name, like the last, and the fourth is a member of
something protected. The new name has the token in it. -/

def jarToJarLid : Candidate where
  rename := ⟨⟨"p.".toList, "Jar".toList⟩, ⟨"q.".toList, "JarLid".toList⟩⟩
  token := "Jar".toList
  token_ne_nil := by decide

def jarContext : UnitContext where
  explicit := [jarToJarLid.rename]
  implicit := []
  foreign := ["Lid".toList]

def legacyJarRules : Rules where
  legacyNamespace := "p".toList
  protectedRoots := ["lib".toList]
  patches := []
  style := .legacy

theorem apply_jars_legacyScan :
    legacyJarRules.style = .legacy ∧
    (∃ splices rest, "éJar §Jar p.Jar lib.Jar Jars".toList = Splice.source splices rest ∧
      "éJar §p.JarLid p.JarLid lib.Jar Jars".toList = Splice.result splices rest ∧
      2 = splices.length ∧
      jarToJarLid.IsLegacyScan jarContext legacyJarRules splices rest) ∧
    jarToJarLid.applyFrom jarContext legacyJarRules "éJar §Jar p.Jar lib.Jar Jars".toList 0 =
      some ("éJar §p.JarLid p.JarLid lib.Jar Jars".toList, 2) := by
  have applied : jarToJarLid.apply jarContext legacyJarRules
      "éJar §Jar p.Jar lib.Jar Jars".toList =
        ("éJar §p.JarLid p.JarLid lib.Jar Jars".toList, 2) := by cbv
  obtain ⟨divides, cursor⟩ := @Candidate.apply_eq_iff_legacyScan jarToJarLid jarContext
    legacyJarRules "éJar §Jar p.Jar lib.Jar Jars".toList rfl
  exact ⟨rfl, (divides _ _).mp applied, cursor.trans (congrArg some applied)⟩

end NameMigration
