import Mathlib
import NameMigration.Proofs.Scan

/-!
A scan as a division of the line. The references that a candidate replaces divide the line into gaps,
and the scan writes the gaps as they are and a new name for each reference, behind what it has written
so far. A division is the one of the scan when each of its references may be replaced there, and no
other one that begins in a gap.
-/

namespace NameMigration

open Text (isAlphabetic isNameChar)

theorem followsQualifier_reverse {qualifier written : Text} :
    followsQualifier qualifier written.reverse = true ↔ qualifier <:+ written := by
  rw [followsQualifier, List.isPrefixOf_iff_prefix, List.reverse_prefix]

theorem qualifierBefore?_reverse (written : Text) :
    qualifierBefore? written.reverse =
      if written.getLast? = some '.' then some (written.rtakeWhile isNameChar) else none := by
  rcases List.eq_nil_or_concat written with rfl | ⟨front, last, rfl⟩
  · rfl
  · rw [List.concat_eq_append, List.rtakeWhile, List.reverse_append, List.getLast?_concat]
    by_cases isDot : last = '.'
    · subst isDot
      rfl
    · simp [qualifierBefore?, isDot]

def Rename.legacyForm (rename : Rename) (written : Text) : Text :=
  if rename.legacy.qualifier <:+ written then rename.target.name
  else rename.legacy.qualifier ++ rename.target.name

def Rename.writeBehind (rename : Rename) (style : QualifierStyle) (written : Text) : Text :=
  (rename.placeBehind style written.reverse).reverse

namespace Rename

variable {rename : Rename} {written : Text}

theorem reverse_writeBehind (style : QualifierStyle) :
    (rename.writeBehind style written).reverse = rename.placeBehind style written.reverse :=
  List.reverse_reverse _

theorem writeBehind_legacy (rename : Rename) (written : Text) :
    rename.writeBehind .legacy written = written ++ rename.legacyForm written := by
  by_cases follows : rename.legacy.qualifier <:+ written
  · simp [writeBehind, placeBehind, legacyForm, followsQualifier_reverse.mpr follows, follows]
  · have apart : followsQualifier rename.legacy.qualifier written.reverse = false :=
      Bool.eq_false_iff.mpr fun here => follows (followsQualifier_reverse.mp here)
    simp [writeBehind, placeBehind, legacyForm, apart, follows]

theorem writeBehind_mapped_append (rename : Rename) (front : Text) :
    rename.writeBehind .mapped (front ++ rename.legacy.qualifier) =
      front ++ rename.target.qualified := by
  have follows : followsQualifier rename.legacy.qualifier
      (front ++ rename.legacy.qualifier).reverse = true :=
    followsQualifier_reverse.mpr (List.suffix_append front _)
  have dropped : (front ++ rename.legacy.qualifier).reverse.drop rename.legacy.qualifier.length =
      front.reverse := by
    rw [List.reverse_append]
    exact List.drop_left' List.length_reverse
  simp only [writeBehind, placeBehind, follows, if_true, dropped]
  simp

theorem writeBehind_mapped (apart : ¬rename.legacy.qualifier <:+ written) :
    rename.writeBehind .mapped written = written ++ rename.target.qualified := by
  have notBehind : followsQualifier rename.legacy.qualifier written.reverse = false :=
    Bool.eq_false_iff.mpr fun here => apart (followsQualifier_reverse.mp here)
  simp [writeBehind, placeBehind, notBehind]

end Rename

/-! ### Divisions -/

/-- The text with the gaps, each in front of a reference, and the rest behind the last one. -/
def Text.withGaps (token : Text) (gaps : List Text) (rest : Text) : Text :=
  gaps.flatMap (· ++ token) ++ rest

theorem Text.withGaps_cons (token gap : Text) (gaps : List Text) (rest : Text) :
    withGaps token (gap :: gaps) rest = gap ++ (token ++ withGaps token gaps rest) := by
  simp [withGaps]

/-- What has been written after the references behind the gaps, when it began with `start`. -/
def Rename.writeAll (rename : Rename) (style : QualifierStyle) (start : Text) (gaps : List Text) :
    Text :=
  gaps.foldl (fun written gap => rename.writeBehind style (written ++ gap)) start

theorem Rename.writeAll_concat (rename : Rename) (style : QualifierStyle) (start : Text)
    (gaps : List Text) (gap : Text) :
    rename.writeAll style start (gaps ++ [gap]) =
      rename.writeBehind style (rename.writeAll style start gaps ++ gap) := by
  rw [writeAll, List.foldl_append]
  rfl

/-- What holds of each item behind the ones before it can be told from the front and the last item. -/
theorem forall_split_concat_iff {α : Type} {good : List α → α → Prop} {front : List α} {last : α} :
    (∀ earlier item later, front ++ [last] = earlier ++ item :: later → good earlier item) ↔
      (∀ earlier item later, front = earlier ++ item :: later → good earlier item) ∧
        good front last := by
  constructor
  · intro each
    refine ⟨?_, each front last [] rfl⟩
    rintro earlier item later rfl
    exact each earlier item (later ++ [last]) (by simp)
  · rintro ⟨each, atLast⟩ earlier item later split
    rcases List.eq_nil_or_concat later with rfl | ⟨others, other, rfl⟩
    · obtain ⟨rfl, same⟩ := List.append_inj' split rfl
      rw [List.cons.injEq] at same
      rwa [← same.1]
    · rw [List.concat_eq_append, ← List.cons_append, ← List.append_assoc] at split
      exact each earlier item others (List.append_inj' split rfl).1

/-- What a line keeps up to a replacement, what is taken out behind that, and what is put there. -/
structure Splice where
  gap : Text
  taken : Text
  inserted : Text
  deriving DecidableEq, Repr

namespace Splice

def source (splices : List Splice) (rest : Text) : Text :=
  splices.flatMap (fun splice => splice.gap ++ splice.taken) ++ rest

def result (splices : List Splice) (rest : Text) : Text :=
  splices.flatMap (fun splice => splice.gap ++ splice.inserted) ++ rest

theorem result_eq_append (splices : List Splice) (rest : Text) :
    result splices rest = result splices [] ++ rest := by
  simp [result]

theorem result_concat (splices : List Splice) (splice : Splice) (rest : Text) :
    result (splices ++ [splice]) rest = result splices splice.gap ++ (splice.inserted ++ rest) := by
  simp [result]

theorem source_eq_withGaps {token : Text} {splices : List Splice} {gaps : List Text}
    (references : splices.map (fun splice => splice.gap ++ splice.taken) = gaps.map (· ++ token))
    (rest : Text) : source splices rest = Text.withGaps token gaps rest := by
  rw [source, Text.withGaps, List.flatMap_def, references, List.flatMap_def]

theorem source_of_taken {token : Text} {splices : List Splice}
    (taken : ∀ splice ∈ splices, splice.taken = token) (rest : Text) :
    source splices rest = Text.withGaps token (splices.map (·.gap)) rest := by
  refine source_eq_withGaps ?_ rest
  rw [List.map_map]
  exact List.map_congr_left fun splice member => by rw [taken splice member]; rfl

end Splice

namespace Candidate

variable {candidate : Candidate} {context : UnitContext} {rules : Rules}
  {start written gap rest line result : Text} {gaps : List Text} {count : Nat}

/-- Whether a reference is replaced that has the first text written in front of it and the second one
in the line behind it. -/
structure Takes (candidate : Candidate) (context : UnitContext) (rules : Rules)
    (written rest : Text) : Prop where
  leftApart : ∀ c ∈ written.getLast?, isAlphabetic c = false
  rightApart : ∀ c ∈ rest.head?, isAlphabetic c = false
  native : candidate.rename.legacy.qualifier <:+ written ∨ context.isForeign candidate.token = false
  unprotected : written.getLast? = some '.' →
    isProtected rules.protectedRoots (written.rtakeWhile isNameChar) = false

theorem accepts_reverse_iff :
    candidate.accepts context rules written.reverse rest = true ↔
      candidate.Takes context rules written rest := by
  have standalone : isStandalone written.reverse rest = true ↔
      (∀ c ∈ written.getLast?, isAlphabetic c = false) ∧
        ∀ c ∈ rest.head?, isAlphabetic c = false := by
    simp [isStandalone, List.head?_reverse, Option.any_eq_false]
  have unprotected : (qualifierBefore? written.reverse).any (isProtected rules.protectedRoots) =
      false ↔ (written.getLast? = some '.' →
        isProtected rules.protectedRoots (written.rtakeWhile isNameChar) = false) := by
    rw [qualifierBefore?_reverse]
    by_cases dotted : written.getLast? = some '.' <;> simp [dotted]
  simp only [accepts, Bool.and_eq_true, Bool.or_eq_true, Bool.not_eq_true', standalone,
    followsQualifier_reverse, unprotected]
  constructor
  · rintro ⟨⟨⟨leftApart, rightApart⟩, native⟩, unprotected⟩
    exact ⟨leftApart, rightApart, native, unprotected⟩
  · rintro ⟨leftApart, rightApart, native, unprotected⟩
    exact ⟨⟨⟨leftApart, rightApart⟩, native⟩, unprotected⟩

/-- Whether no reference that begins in the gap is replaced there. -/
def PassesOver (candidate : Candidate) (context : UnitContext) (rules : Rules)
    (written gap rest : Text) : Prop :=
  ∀ front back right, gap = front ++ back → back ≠ [] → back ++ rest = candidate.token ++ right →
    ¬candidate.Takes context rules (written ++ front) right

theorem passesOver_nil : candidate.PassesOver context rules written [] rest := by
  intro front back right split nonempty
  exact absurd (List.append_eq_nil_iff.mp split.symm).2 nonempty

theorem passesOver_cons_iff {c : Char} :
    candidate.PassesOver context rules written (c :: gap) rest ↔
      (∀ right, c :: (gap ++ rest) = candidate.token ++ right →
        ¬candidate.Takes context rules written right) ∧
        candidate.PassesOver context rules (written ++ [c]) gap rest := by
  constructor
  · intro passes
    refine ⟨fun right here => ?_, ?_⟩
    · have first := passes [] (c :: gap) right rfl (by simp) here
      rwa [List.append_nil] at first
    · intro front back right split nonempty here
      have later := passes (c :: front) back right (by simp [split]) nonempty here
      rwa [List.append_cons] at later
  · rintro ⟨first, later⟩ front back right split nonempty here
    cases front with
    | nil =>
        rw [List.nil_append] at split
        subst split
        rw [List.append_nil]
        exact first right here
    | cons d others =>
        rw [List.cons_append, List.cons.injEq] at split
        obtain ⟨rfl, tail⟩ := split
        rw [List.append_cons]
        exact later others back right tail nonempty here

structure IsNext (candidate : Candidate) (context : UnitContext) (rules : Rules)
    (written gap behind : Text) : Prop where
  takes : candidate.Takes context rules (written ++ gap) behind
  passes : candidate.PassesOver context rules written gap (candidate.token ++ behind)

/-- Whether the gaps and the rest are those of the scan of a line, when `start` is written in front of
it: the reference behind each gap is the next one to be replaced, and none is that begins in the rest. -/
structure IsDivision (candidate : Candidate) (context : UnitContext) (rules : Rules)
    (start : Text) (gaps : List Text) (rest : Text) : Prop where
  each : ∀ earlier gap later, gaps = earlier ++ gap :: later →
    candidate.IsNext context rules (candidate.rename.writeAll rules.style start earlier) gap
      (Text.withGaps candidate.token later rest)
  passesRest :
    candidate.PassesOver context rules (candidate.rename.writeAll rules.style start gaps) rest []

theorem isDivision_nil_iff :
    candidate.IsDivision context rules start [] rest ↔
      candidate.PassesOver context rules start rest [] :=
  ⟨fun division => division.passesRest, fun passes => ⟨by simp, passes⟩⟩

theorem isDivision_cons_iff :
    candidate.IsDivision context rules start (gap :: gaps) rest ↔
      candidate.IsNext context rules start gap (Text.withGaps candidate.token gaps rest) ∧
        candidate.IsDivision context rules
          (candidate.rename.writeBehind rules.style (start ++ gap)) gaps rest := by
  constructor
  · intro division
    refine ⟨division.each [] gap gaps rfl, ?_, division.passesRest⟩
    intro earlier other later split
    exact division.each (gap :: earlier) other later (by simp [split])
  · rintro ⟨next, division⟩
    refine ⟨?_, division.passesRest⟩
    intro earlier other later split
    cases earlier with
    | nil =>
        rw [List.nil_append, List.cons.injEq] at split
        obtain ⟨rfl, rfl⟩ := split
        exact next
    | cons first others =>
        rw [List.cons_append, List.cons.injEq] at split
        obtain ⟨rfl, tail⟩ := split
        exact division.each others other later tail

/-! ### The division of a scan -/

theorem Scans.over_gap (passes : candidate.PassesOver context rules written gap rest)
    (scans : candidate.Scans context rules (written ++ gap).reverse rest result count) :
    candidate.Scans context rules written.reverse (gap ++ rest) result count := by
  induction gap generalizing written with
  | nil => rwa [List.append_nil] at scans
  | cons c others ih =>
      obtain ⟨first, later⟩ := passesOver_cons_iff.mp passes
      rw [List.append_cons] at scans
      have scansOn := ih later scans
      rw [List.reverse_append] at scansOn
      refine Scans.passed ?_ scansOn
      intro right here
      exact Bool.eq_false_iff.mpr fun accepted => first right here (accepts_reverse_iff.mp accepted)

theorem IsDivision.scans (division : candidate.IsDivision context rules start gaps rest) :
    candidate.Scans context rules start.reverse (Text.withGaps candidate.token gaps rest)
      (candidate.rename.writeAll rules.style start gaps ++ rest) gaps.length := by
  induction gaps generalizing start with
  | nil =>
      have finished : candidate.Scans context rules (start ++ rest).reverse []
          (start ++ rest).reverse.reverse 0 := Scans.finished
      rw [List.reverse_reverse] at finished
      have scanned := Scans.over_gap (isDivision_nil_iff.mp division) finished
      rwa [List.append_nil] at scanned
  | cons gap others ih =>
      obtain ⟨next, later⟩ := isDivision_cons_iff.mp division
      have scansOn := ih later
      rw [Rename.reverse_writeBehind] at scansOn
      rw [Text.withGaps_cons]
      exact Scans.over_gap next.passes (Scans.replaced (accepts_reverse_iff.mpr next.takes) scansOn)

theorem Scans.exists_division {left source : Text}
    (scans : candidate.Scans context rules left source result count) :
    ∃ gaps rest, source = Text.withGaps candidate.token gaps rest ∧
      result = candidate.rename.writeAll rules.style left.reverse gaps ++ rest ∧
      count = gaps.length ∧ candidate.IsDivision context rules left.reverse gaps rest := by
  induction scans using Candidate.scans_induction with
  | @finished left =>
      exact ⟨[], [], rfl, by simp [Rename.writeAll], rfl, isDivision_nil_iff.mpr passesOver_nil⟩
  | @passed left c source result count rejected _ ih =>
      obtain ⟨gaps, rest, here, written, counted, division⟩ := ih
      rw [List.reverse_cons] at written division
      have firstPassed : ∀ right, c :: source = candidate.token ++ right →
          ¬candidate.Takes context rules left.reverse right := by
        intro right front takes
        have accepted := accepts_reverse_iff.mpr takes
        rw [List.reverse_reverse, rejected right front] at accepted
        exact absurd accepted (by decide)
      cases gaps with
      | nil =>
          have passes := isDivision_nil_iff.mp division
          refine ⟨[], c :: rest, by rw [here]; rfl, by simpa [Rename.writeAll] using written, counted,
            isDivision_nil_iff.mpr (passesOver_cons_iff.mpr ⟨fun right front => ?_, passes⟩)⟩
          exact firstPassed right (by simpa [here, Text.withGaps] using front)
      | cons gap others =>
          obtain ⟨⟨takes, passes⟩, later⟩ := isDivision_cons_iff.mp division
          rw [Text.withGaps_cons] at here
          rw [List.append_assoc, List.singleton_append] at takes later
          refine ⟨(c :: gap) :: others, rest, by rw [here, Text.withGaps_cons]; rfl, ?_, counted,
            isDivision_cons_iff.mpr
              ⟨⟨takes, passesOver_cons_iff.mpr ⟨fun right front => ?_, passes⟩⟩, later⟩⟩
          · simpa [Rename.writeAll] using written
          · exact firstPassed right (by rw [here]; exact front)
  | @replaced left behind result count accepted _ ih =>
      obtain ⟨gaps, rest, here, written, counted, division⟩ := ih
      have takes : candidate.Takes context rules (left.reverse ++ []) behind := by
        rw [List.append_nil]
        exact accepts_reverse_iff.mp (by rwa [List.reverse_reverse])
      have writes : (candidate.rename.placeBehind rules.style left).reverse =
          candidate.rename.writeBehind rules.style (left.reverse ++ []) := by
        rw [List.append_nil, Rename.writeBehind, List.reverse_reverse]
      rw [writes] at written division
      refine ⟨[] :: gaps, rest, ?_, written, by rw [counted]; rfl,
        isDivision_cons_iff.mpr ⟨⟨here ▸ takes, passesOver_nil⟩, division⟩⟩
      rw [Text.withGaps_cons, here]
      rfl

/-- The result of a scan and its count are those of a division of the line, and a line has no division
with another result or count. -/
theorem apply_eq_iff_division :
    candidate.apply context rules line = (result, count) ↔
      ∃ gaps rest, line = Text.withGaps candidate.token gaps rest ∧
        result = candidate.rename.writeAll rules.style [] gaps ++ rest ∧
        count = gaps.length ∧ candidate.IsDivision context rules [] gaps rest := by
  constructor
  · intro applied
    have scans := candidate.scans_apply context rules line
    rw [applied] at scans
    exact scans.exists_division
  · rintro ⟨gaps, rest, rfl, rfl, rfl, division⟩
    exact division.scans.eq_scan

end Candidate

end NameMigration
