import Mathlib
import NameMigration.Proofs.ScanDivision

/-!
The scan of a candidate in the mapped style, as splices. Each reference should be taken out as it stands
in the line, alone or with the whole legacy package in front of it. The scan only compares what it has
written with the package, so it also takes the end of a longer name for the package, or the end of a new
name that it has put in itself. The main statement says when neither happens.
-/

namespace NameMigration

open Text (isAlphabetic)

namespace Rename

variable {rename : Rename}

theorem exists_writeBehind_mapped (rename : Rename) (written : Text) :
    ∃ front, rename.writeBehind .mapped written = front ++ rename.target.qualified := by
  by_cases follows : rename.legacy.qualifier <:+ written
  · obtain ⟨front, rfl⟩ := follows
    exact ⟨front, writeBehind_mapped_append rename front⟩
  · exact ⟨written, writeBehind_mapped follows⟩

theorem writeBehind_mapped_eq_append {written : Text}
    (kept : ¬(rename.legacy.qualifier ≠ [] ∧ rename.legacy.qualifier <:+ written)) :
    rename.writeBehind .mapped written = written ++ rename.target.qualified := by
  by_cases empty : rename.legacy.qualifier = []
  · have written := writeBehind_mapped_append rename written
    rwa [empty, List.append_nil] at written
  · exact writeBehind_mapped fun follows => kept ⟨empty, follows⟩

end Rename

namespace Candidate

variable {candidate : Candidate} {context : UnitContext} {rules : Rules} {line gap rest : Text}
  {gaps : List Text} {splices : List Splice} {splice : Splice}

/-- Whether a splice behind the earlier ones puts in the new name with its package, and takes out the
token alone or with the whole legacy package in front of it, which is not the end of a longer name. -/
structure MappedSplice (candidate : Candidate) (earlier : List Splice) (splice : Splice) : Prop where
  inserted : splice.inserted = candidate.rename.target.qualified
  taken : splice.taken = candidate.token ∨
    splice.taken = candidate.rename.legacy.qualifier ++ candidate.token ∧
      ∀ c ∈ (Splice.source earlier splice.gap).getLast?, isAlphabetic c = false

/-- Whether the splices take the references behind the gaps as they stand in the line. -/
structure TakesAsWritten (candidate : Candidate) (gaps : List Text) (splices : List Splice) : Prop where
  references :
    splices.map (fun splice => splice.gap ++ splice.taken) = gaps.map (· ++ candidate.token)
  each : ∀ earlier splice later, splices = earlier ++ splice :: later →
    candidate.MappedSplice earlier splice

theorem takesAsWritten_concat_iff :
    candidate.TakesAsWritten (gaps ++ [gap]) (splices ++ [splice]) ↔
      candidate.TakesAsWritten gaps splices ∧
        splice.gap ++ splice.taken = gap ++ candidate.token ∧
        candidate.MappedSplice splices splice := by
  constructor
  · rintro ⟨references, each⟩
    obtain ⟨eachBefore, last⟩ := forall_split_concat_iff.mp each
    rw [List.map_append, List.map_append] at references
    obtain ⟨before, reference⟩ := List.append_inj' references rfl
    exact ⟨⟨before, eachBefore⟩, List.singleton_inj.mp reference, last⟩
  · rintro ⟨⟨references, each⟩, reference, last⟩
    exact ⟨by simp [references, reference], forall_split_concat_iff.mpr ⟨each, last⟩⟩

/-- Whether a legacy package that ends what is written up to a reference stands in the gap in front of
that, and not behind a letter of the line. -/
def DropsFromGap (candidate : Candidate) (earlier : List Text) (gap : Text) : Prop :=
  candidate.rename.legacy.qualifier ≠ [] →
    candidate.rename.legacy.qualifier <:+ candidate.rename.writeAll .mapped [] earlier ++ gap →
      ∃ kept, gap = kept ++ candidate.rename.legacy.qualifier ∧
        ∀ c ∈ (Text.withGaps candidate.token earlier kept).getLast?, isAlphabetic c = false

def DropsFromGaps (candidate : Candidate) (gaps : List Text) : Prop :=
  ∀ earlier gap later, gaps = earlier ++ gap :: later → candidate.DropsFromGap earlier gap

theorem exists_takesAsWritten (drops : candidate.DropsFromGaps gaps) :
    ∃ splices, candidate.TakesAsWritten gaps splices ∧
      candidate.rename.writeAll .mapped [] gaps = Splice.result splices [] := by
  induction gaps using List.reverseRecOn with
  | nil => exact ⟨[], ⟨rfl, by simp⟩, rfl⟩
  | append_singleton gaps gap ih =>
      obtain ⟨dropsBefore, dropsLast⟩ := forall_split_concat_iff.mp drops
      obtain ⟨splices, takes, written⟩ := ih dropsBefore
      by_cases dropped : candidate.rename.legacy.qualifier ≠ [] ∧
          candidate.rename.legacy.qualifier <:+ candidate.rename.writeAll .mapped [] gaps ++ gap
      · obtain ⟨kept, rfl, apart⟩ := dropsLast dropped.1 dropped.2
        rw [← Splice.source_eq_withGaps takes.references] at apart
        refine ⟨splices ++ [⟨kept, candidate.rename.legacy.qualifier ++ candidate.token,
          candidate.rename.target.qualified⟩], takesAsWritten_concat_iff.mpr
            ⟨takes, by simp, rfl, Or.inr ⟨rfl, apart⟩⟩, ?_⟩
        rw [Rename.writeAll_concat, ← List.append_assoc, Rename.writeBehind_mapped_append, written,
          Splice.result_concat, List.append_nil, Splice.result_eq_append splices kept]
      · refine ⟨splices ++ [⟨gap, candidate.token, candidate.rename.target.qualified⟩],
          takesAsWritten_concat_iff.mpr ⟨takes, rfl, rfl, Or.inl rfl⟩, ?_⟩
        rw [Rename.writeAll_concat, Rename.writeBehind_mapped_eq_append dropped, written,
          Splice.result_concat, List.append_nil, Splice.result_eq_append splices gap]

/-- No splices that take the references as they stand lose more text than the scan, and when they lose
as much the scan drops packages only where the line has them. -/
theorem TakesAsWritten.length_writeAll (takes : candidate.TakesAsWritten gaps splices) :
    (candidate.rename.writeAll .mapped [] gaps).length ≤ (Splice.result splices []).length ∧
      ((Splice.result splices []).length ≤ (candidate.rename.writeAll .mapped [] gaps).length →
        candidate.DropsFromGaps gaps) := by
  induction gaps using List.reverseRecOn generalizing splices with
  | nil => exact ⟨by simp [Rename.writeAll], fun _ => by simp [DropsFromGaps]⟩
  | append_singleton gaps gap ih =>
      rcases List.eq_nil_or_concat splices with rfl | ⟨earlier, splice, rfl⟩
      · exact absurd takes.references (by simp)
      · rw [List.concat_eq_append] at takes ⊢
        obtain ⟨before, reference, inserted, taken⟩ := takesAsWritten_concat_iff.mp takes
        obtain ⟨shorter, dropsBefore⟩ := ih before
        have length : (Splice.result (earlier ++ [splice]) []).length =
            (Splice.result earlier []).length + splice.gap.length +
              candidate.rename.target.qualified.length := by
          rw [Splice.result_concat, Splice.result_eq_append earlier splice.gap, inserted,
            List.append_nil, List.length_append, List.length_append]
        rw [Rename.writeAll_concat, length]
        rcases taken with alone | ⟨behindPackage, apart⟩
        · obtain rfl : splice.gap = gap := List.append_cancel_right (alone ▸ reference)
          by_cases dropped : candidate.rename.legacy.qualifier ≠ [] ∧ candidate.rename.legacy.qualifier
              <:+ candidate.rename.writeAll .mapped [] gaps ++ splice.gap
          · obtain ⟨nonempty, front, here⟩ := dropped
            have positive := List.length_pos_iff.mpr nonempty
            have lost := congrArg List.length here
            rw [← here, Rename.writeBehind_mapped_append]
            simp only [List.length_append] at lost ⊢
            exact ⟨by omega, fun long => by omega⟩
          · rw [Rename.writeBehind_mapped_eq_append dropped]
            simp only [List.length_append]
            refine ⟨by omega, fun long => forall_split_concat_iff.mpr
              ⟨dropsBefore (by omega), fun nonempty follows => absurd ⟨nonempty, follows⟩ dropped⟩⟩
        · have gapEnd : gap = splice.gap ++ candidate.rename.legacy.qualifier := by
            rw [behindPackage, ← List.append_assoc] at reference
            exact (List.append_cancel_right reference).symm
          subst gapEnd
          rw [← List.append_assoc, Rename.writeBehind_mapped_append]
          simp only [List.length_append]
          rw [Splice.source_eq_withGaps before.references] at apart
          refine ⟨by omega, fun long => forall_split_concat_iff.mpr
            ⟨dropsBefore (by omega), fun _ _ => ⟨splice.gap, rfl, apart⟩⟩⟩

/-- The scan of a line in the mapped style takes each reference as it stands in the line exactly when
it drops a legacy package only where the line has it. -/
theorem apply_takesAsWritten_iff (mappedStyle : rules.style = .mapped) :
    ∃ gaps rest, line = Text.withGaps candidate.token gaps rest ∧
      candidate.apply context rules line =
        (candidate.rename.writeAll .mapped [] gaps ++ rest, gaps.length) ∧
      candidate.IsDivision context rules [] gaps rest ∧
      ((∃ splices, line = Splice.source splices rest ∧
        (candidate.apply context rules line).1 = Splice.result splices rest ∧
        (candidate.apply context rules line).2 = splices.length ∧
        candidate.TakesAsWritten gaps splices) ↔ candidate.DropsFromGaps gaps) := by
  cases applied : candidate.apply context rules line with
  | mk result count =>
      obtain ⟨gaps, rest, here, written, counted, division⟩ := apply_eq_iff_division.mp applied
      rw [mappedStyle] at written
      refine ⟨gaps, rest, here, by rw [written, counted], division, ?_⟩
      constructor
      · rintro ⟨splices, -, spliced, -, takes⟩
        refine takes.length_writeAll.2 (Nat.le_of_eq ?_)
        have same := written.symm.trans spliced
        rw [Splice.result_eq_append, List.append_cancel_right_eq] at same
        rw [same]
      · intro drops
        obtain ⟨splices, takes, spliced⟩ := exists_takesAsWritten drops
        have lengths := congrArg List.length takes.references
        rw [List.length_map, List.length_map] at lengths
        refine ⟨splices, ?_, ?_, counted.trans lengths.symm, takes⟩
        · rw [here, Splice.source_eq_withGaps takes.references]
        · rw [written, spliced, ← Splice.result_eq_append]

/-- When no end of the new name is a front of the legacy package and the package with the token behind
it stands nowhere in the line behind a letter, each package is dropped where the line has it. -/
theorem dropsFromGaps_of_apart (here : line = Text.withGaps candidate.token gaps rest)
    (apart : ∀ front ∈ candidate.rename.legacy.qualifier.inits, front ≠ [] →
      ¬front <:+ candidate.rename.target.qualified ∧ ¬candidate.rename.target.qualified <:+ front)
    (ownPackages : ∀ front behind,
      line = front ++ (candidate.rename.legacy.qualifier ++ candidate.token ++ behind) →
        ∀ c ∈ front.getLast?, isAlphabetic c = false) :
    candidate.DropsFromGaps gaps := by
  rintro earlier gap later rfl nonempty follows
  have inGap : candidate.rename.legacy.qualifier <:+ gap := by
    rcases List.suffix_or_suffix_of_suffix follows (List.suffix_append _ gap) with inGap | inPackage
    · exact inGap
    · obtain ⟨front, split⟩ := inPackage
      rw [← split, List.suffix_append_self_iff] at follows
      by_cases whole : front = []
      · rw [← split, whole]
        exact List.suffix_rfl
      · -- The front of the package would have to end the name put in last.
        obtain ⟨notBehind, notInside⟩ := apart front ((List.mem_inits _ _).mpr ⟨gap, split⟩) whole
        rcases List.eq_nil_or_concat earlier with rfl | ⟨others, last, rfl⟩
        · exact absurd (List.suffix_nil.mp follows) whole
        · rw [List.concat_eq_append, Rename.writeAll_concat] at follows
          obtain ⟨written, ends⟩ := candidate.rename.exists_writeBehind_mapped
            (candidate.rename.writeAll .mapped [] others ++ last)
          rw [ends] at follows
          rcases List.suffix_or_suffix_of_suffix follows (List.suffix_append written _) with
            behind | inside
          · exact absurd behind notBehind
          · exact absurd inside notInside
  obtain ⟨kept, rfl⟩ := inGap
  refine ⟨kept, rfl, ownPackages _ (Text.withGaps candidate.token later rest) ?_⟩
  simp [here, Text.withGaps]

end Candidate

/-! The new name of the second box ends like the legacy package begins. -/

def boxToCrate : Candidate where
  rename := ⟨⟨"p.".toList, "Box".toList⟩, ⟨"q.".toList, "Crate".toList⟩⟩
  token := "Box".toList
  token_ne_nil := by decide

def boxToP : Candidate where
  rename := ⟨⟨"p.".toList, "Box".toList⟩, ⟨"q.".toList, "p".toList⟩⟩
  token := "Box".toList
  token_ne_nil := by decide

def soleImport (candidate : Candidate) : UnitContext where
  explicit := [candidate.rename]
  implicit := []
  foreign := []

def mappedBoxRules : Rules where
  legacyNamespace := "p".toList
  protectedRoots := []
  patches := []
  style := .mapped

theorem apply_crates_takesAsWritten :
    mappedBoxRules.style = .mapped ∧ ∃ gaps splices rest,
      "p.Box Box".toList = Splice.source splices rest ∧
      "q.Crate q.Crate".toList = Splice.result splices rest ∧ 2 = splices.length ∧
      boxToCrate.TakesAsWritten gaps splices := by
  have applied : boxToCrate.apply (soleImport boxToCrate) mappedBoxRules "p.Box Box".toList =
      ("q.Crate q.Crate".toList, 2) := by cbv
  obtain ⟨gaps, rest, here, -, -, takes⟩ := @Candidate.apply_takesAsWritten_iff boxToCrate
    (soleImport boxToCrate) mappedBoxRules "p.Box Box".toList rfl
  have ownPackages : ∀ front behind, "p.Box Box".toList =
      front ++ (boxToCrate.rename.legacy.qualifier ++ boxToCrate.token ++ behind) →
        front.getLast?.any isAlphabetic = false := by decide +kernel
  have drops : boxToCrate.DropsFromGaps gaps := by
    refine Candidate.dropsFromGaps_of_apart here (by decide +kernel) fun front behind split => ?_
    simpa [Option.any_eq_false] using ownPackages front behind split
  obtain ⟨splices, source, result, counted, asWritten⟩ := takes.mpr drops
  rw [applied] at result counted
  exact ⟨rfl, gaps, splices, rest, source, result, counted, asWritten⟩

theorem apply_boxes_notAsWritten :
    mappedBoxRules.style = .mapped ∧
    boxToP.apply (soleImport boxToP) mappedBoxRules "Box.Box".toList = ("q.q.p".toList, 2) ∧
    (¬∃ splices rest, "Box.Box".toList = Splice.source splices rest ∧
      "q.q.p".toList = Splice.result splices rest ∧ 2 = splices.length ∧
      ∀ earlier splice later, splices = earlier ++ splice :: later →
        boxToP.MappedSplice earlier splice) ∧
    boxToP.apply (soleImport boxToP) mappedBoxRules "xp.Box".toList = ("xq.p".toList, 1) ∧
    ¬∃ splices rest, "xp.Box".toList = Splice.source splices rest ∧
      "xq.p".toList = Splice.result splices rest ∧ 1 = splices.length ∧
      ∀ earlier splice later, splices = earlier ++ splice :: later →
        boxToP.MappedSplice earlier splice := by
  refine ⟨rfl, by cbv, ?_, by cbv, ?_⟩
  · rintro ⟨splices, rest, -, written, counted, each⟩
    obtain ⟨first, second, rfl⟩ := List.length_eq_two.mp counted.symm
    have insertedFirst := (each [] first [second] rfl).inserted
    have insertedSecond := (each [first] second [] rfl).inserted
    have lengths := congrArg List.length written
    simp [Splice.result, insertedFirst, insertedSecond, boxToP, ClassName.qualified] at lengths
    omega
  · rintro ⟨splices, rest, here, written, counted, each⟩
    obtain ⟨splice, rfl⟩ := List.length_eq_one_iff.mp counted.symm
    obtain ⟨inserted, taken⟩ := each [] splice [] rfl
    have lengths := congrArg List.length written
    have lengthsHere := congrArg List.length here
    simp [Splice.result, Splice.source, inserted, boxToP, ClassName.qualified] at lengths lengthsHere
    rcases taken with alone | ⟨behindPackage, apart⟩
    · rw [alone] at lengthsHere
      simp [boxToP] at lengthsHere
      omega
    · simp only [Splice.source, behindPackage, boxToP, List.flatMap_singleton] at here apart
      cases gap : splice.gap with
      | nil =>
          rw [gap] at here
          exact absurd here (by simp)
      | cons c others =>
          rw [gap] at here apart lengths
          obtain rfl : others = [] :=
            List.length_eq_zero_iff.mp (by simp only [List.length_cons] at lengths; omega)
          have isLetter : 'x' = c := (List.cons.inj here).1
          exact absurd (apart 'x' (by simpa using isLetter.symm)) (by decide +kernel)

end NameMigration
