import NameMigration.Proofs.LetterRuns
import NameMigration.Proofs.Scan
import NameMigration.Proofs.UnitCandidates

/-!
Names behind their package, where all classes share one package. A replacement puts in a name that is
no part of the package, so a name that stands behind the package afterwards either is the one put in
or stood there before. A class that gets another name is therefore nowhere left behind its package
once its candidate has run.
-/

namespace NameMigration

open Text (isAlphabetic isNameChar IsLetterRun qualifierOf qualifierPieces)

namespace Text

def IsAsciiRun (text : Text) : Prop :=
  text ≠ [] ∧ ∀ c ∈ text, c.isAlpha = true

instance (text : Text) : Decidable (IsAsciiRun text) :=
  decidable_of_iff (text ≠ [] ∧ text.all Char.isAlpha = true) (by simp [IsAsciiRun])

theorem val_lt_of_isAlpha {c : Char} (letter : c.isAlpha = true) : c.val < 0x80 := by
  rcases Bool.or_eq_true _ _ |>.mp letter with upper | lower
  · have bounds : c.val ≥ 'A'.val ∧ c.val ≤ 'Z'.val := of_decide_eq_true upper
    exact UInt32.lt_of_le_of_lt bounds.2 (by decide)
  · have bounds := Bool.and_eq_true _ _ |>.mp lower
    exact UInt32.lt_of_le_of_lt (of_decide_eq_true bounds.2) (by decide)

theorem isAlphabetic_of_isAlpha {c : Char} (letter : c.isAlpha = true) : isAlphabetic c = true := by
  simp [isAlphabetic, val_lt_of_isAlpha letter, letter]

theorem isNameChar_of_isAlpha {c : Char} (letter : c.isAlpha = true) : isNameChar c = true := by
  simp [isNameChar, Char.isAlphanum, letter]

theorem isPathChar_of_isAlpha {c : Char} (letter : c.isAlpha = true) : isPathChar c = true := by
  simp [isPathChar, isWord, val_lt_of_isAlpha letter, Char.isAlphanum, letter]

theorem IsAsciiRun.isLetterRun {text : Text} (isRun : IsAsciiRun text) : IsLetterRun text :=
  ⟨isRun.1, fun c member => isAlphabetic_of_isAlpha (isRun.2 c member)⟩

theorem isNameChar_of_mem_qualifierOf {packages : List Text}
    (areRuns : ∀ package ∈ packages, IsAsciiRun package) :
    ∀ c ∈ qualifierOf packages, isNameChar c = true := by
  intro c member
  rcases eq_dot_or_mem_of_mem_qualifierOf member with rfl | ⟨package, inPackages, inPackage⟩
  · decide
  · exact isNameChar_of_isAlpha ((areRuns package inPackages).2 c inPackage)

/-- The name stands behind the packages, as a word of its own, between other pieces of the line. -/
def Stands (packages : List Text) (name : Text) (before after : List Text) (line : Text) : Prop :=
  line.pieces = before ++ (qualifierPieces packages ++ name :: after)

variable {packages : List Text} {name line : Text} {before after : List Text}

theorem Stands.line_eq (stands : Stands packages name before after line) :
    line = before.flatten ++ (qualifierOf packages ++ (name ++ after.flatten)) := by
  have whole := congrArg List.flatten stands
  simpa [flatten_pieces, flatten_qualifierPieces] using whole

theorem head?_qualifierOf_append (areRuns : ∀ package ∈ packages, IsLetterRun package)
    (nonempty : packages ≠ []) (rest : Text) :
    (qualifierOf packages ++ rest).head?.any isAlphabetic = true := by
  obtain ⟨first, others, split⟩ := List.exists_cons_of_ne_nil nonempty
  have firstRun := areRuns first (by simp [split])
  obtain ⟨c, letters, spelled⟩ := List.exists_cons_of_ne_nil firstRun.1
  have letter := firstRun.2 c (by simp [spelled])
  simp [split, qualifierOf_cons, spelled, letter]

theorem Stands.before_apart (areRuns : ∀ package ∈ packages, IsLetterRun package)
    (nonempty : packages ≠ []) (stands : Stands packages name before after line) :
    before.flatten.getLast?.any isAlphabetic = false := by
  rcases apart_of_pieces_eq stands with apart | apart
  · exact apart
  · rw [List.flatten_append, flatten_qualifierPieces,
      head?_qualifierOf_append areRuns nonempty] at apart
    exact absurd apart (by decide)

theorem Stands.after_apart (isRun : IsLetterRun name)
    (stands : Stands packages name before after line) :
    after.flatten.head?.any isAlphabetic = false := by
  have split : line.pieces = (before ++ (qualifierPieces packages ++ [name])) ++ after :=
    stands.trans (by simp)
  rcases apart_of_pieces_eq split with apart | apart
  · obtain ⟨last, isLast⟩ := Option.ne_none_iff_exists'.mp (mt List.getLast?_eq_none_iff.mp isRun.1)
    have letter := isRun.2 last (List.mem_of_getLast? isLast)
    simp [List.getLast?_append, isLast, letter] at apart
  · exact apart

theorem append_cons_eq_append_append {Piece : Type} {left right first last middle : List Piece}
    {piece : Piece} (absent : piece ∉ middle)
    (same : left ++ piece :: right = first ++ (middle ++ last)) :
    (∃ more, left = first ++ (middle ++ more)) ∨
      ∃ between, first = left ++ piece :: between ∧ right = between ++ (middle ++ last) := by
  rcases List.append_eq_append_iff.mp same with ⟨extra, firstSplit, tail⟩ | ⟨extra, leftSplit, tail⟩
  · cases extra with
    | nil =>
        rw [List.nil_append] at tail
        cases middle with
        | nil => exact Or.inl ⟨[], by simp [firstSplit]⟩
        | cons head others =>
            rw [List.cons_append, List.cons.injEq] at tail
            exact absurd tail.1 (by rintro rfl; simp at absent)
    | cons head between =>
        rw [List.cons_append, List.cons.injEq] at tail
        obtain ⟨rfl, behind⟩ := tail
        exact Or.inr ⟨between, firstSplit, behind⟩
  · rcases List.append_eq_append_iff.mp tail with ⟨more, extraSplit, _⟩ | ⟨rest, middleSplit, behind⟩
    · exact Or.inl ⟨more, by rw [leftSplit, extraSplit]⟩
    · cases rest with
      | nil => exact Or.inl ⟨[], by simp [leftSplit, middleSplit]⟩
      | cons head others =>
          rw [List.cons_append, List.cons.injEq] at behind
          rw [middleSplit, behind.1] at absent
          simp at absent

theorem append_eq_append_cons {Piece : Type} {left back first last : List Piece} {piece : Piece}
    (absent : piece ∉ back) (same : left ++ back = first ++ piece :: last) :
    ∃ more, left = first ++ piece :: more := by
  have split : first ++ piece :: last = left ++ (back ++ []) := by simp [same]
  rcases append_cons_eq_append_append absent split with ⟨later, tooLong⟩ | ⟨rest, whole, _⟩
  · have lengths := congrArg List.length same
    have longer := congrArg List.length tooLong
    simp only [List.length_append, List.length_cons] at lengths longer
    omega
  · exact ⟨rest, whole⟩

theorem pieces_spelled {front : List Text} {left right : Text}
    (areRuns : ∀ package ∈ front, IsLetterRun package) (isRun : IsLetterRun name)
    (standalone : isStandalone left right = true) :
    pieces (left.reverse ++ ((qualifierOf front ++ name) ++ right)) =
      (pieces left.reverse ++ qualifierPieces front) ++ name :: right.pieces := by
  obtain ⟨leftApart, rightApart⟩ := isStandalone_iff.mp standalone
  rw [pieces_append (Or.inl (by rwa [List.getLast?_reverse])), pieces_append (Or.inr rightApart),
    pieces_qualifierOf_append front areRuns, isRun.pieces]
  simp

theorem stands_spelled {front : List Text} {left right other : Text}
    (areRuns : ∀ package ∈ packages, IsLetterRun package) (nonempty : packages ≠ [])
    (isFront : front = [] ∨ front = packages)
    (isRun : IsLetterRun name) (notPackage : name ∉ packages)
    (otherRun : IsLetterRun other) (otherNotPackage : other ∉ packages) (different : other ≠ name)
    (standalone : isStandalone left right = true)
    (stands : Stands packages name before after
      (left.reverse ++ ((qualifierOf front ++ other) ++ right))) :
    (∃ more, pieces left.reverse = before ++ (qualifierPieces packages ++ name :: more)) ∨
      ∃ between, between ≠ [] ∧
        before = (pieces left.reverse ++ qualifierPieces front) ++ other :: between ∧
        right.pieces = between ++ (qualifierPieces packages ++ name :: after) := by
  have frontRuns : ∀ package ∈ front, IsLetterRun package := by
    rcases isFront with rfl | rfl
    · simp
    · exact areRuns
  have absent : other ∉ qualifierPieces packages ++ [name] := by
    intro member
    rcases List.mem_append.mp member with inPackages | isName
    · exact otherNotPackage (mem_of_mem_qualifierPieces otherRun inPackages)
    · exact different (List.mem_singleton.mp isName)
  have same := (pieces_spelled frontRuns otherRun standalone).symm.trans stands
  rw [show qualifierPieces packages ++ name :: after =
    (qualifierPieces packages ++ [name]) ++ after by simp] at same
  rcases append_cons_eq_append_append absent same with ⟨more, inFront⟩ | ⟨between, behind, rest⟩
  · -- The name cannot lie in the packages that were put in, so it lies in front of them.
    left
    have nameAbsent : name ∉ qualifierPieces front := by
      intro member
      rcases isFront with rfl | rfl
      · simp [qualifierPieces] at member
      · exact notPackage (mem_of_mem_qualifierPieces isRun member)
    have split : pieces left.reverse ++ qualifierPieces front =
        (before ++ qualifierPieces packages) ++ name :: more := by simp [inFront]
    obtain ⟨rest, whole⟩ := append_eq_append_cons nameAbsent split
    exact ⟨rest, by simp [whole]⟩
  · right
    refine ⟨between, ?_, behind, by simpa using rest⟩
    rintro rfl
    have atOnce : Stands packages name [] after right := rest.trans (by simp)
    have letter := (isStandalone_iff.mp standalone).2
    rw [atOnce.line_eq, List.flatten_nil, List.nil_append,
      head?_qualifierOf_append areRuns nonempty] at letter
    exact absurd letter (by decide)

end Text

structure Rename.IsPlain (packages : List Text) (rename : Rename) : Prop where
  qualifier : rename.legacy.qualifier = qualifierOf packages
  key_run : Text.IsAsciiRun rename.key
  target_run : Text.IsAsciiRun rename.target.name
  key_notMem : rename.key ∉ packages
  target_notMem : rename.target.name ∉ packages

instance (packages : List Text) (rename : Rename) : Decidable (rename.IsPlain packages) :=
  decidable_of_iff (rename.legacy.qualifier = qualifierOf packages ∧ Text.IsAsciiRun rename.key ∧
      Text.IsAsciiRun rename.target.name ∧ packages.contains rename.key = false ∧
      packages.contains rename.target.name = false)
    ⟨fun ⟨qualifier, key_run, target_run, key_notMem, target_notMem⟩ =>
        ⟨qualifier, key_run, target_run, by simpa using key_notMem, by simpa using target_notMem⟩,
      fun plain => ⟨plain.qualifier, plain.key_run, plain.target_run, by simpa using plain.key_notMem,
        by simpa using plain.target_notMem⟩⟩

/-- The packages that the legacy style writes at a place: none behind the qualifier. -/
def packagesAt (packages : List Text) (left : Text) : List Text :=
  if followsQualifier (qualifierOf packages) left then [] else packages

theorem packagesAt_cases (packages : List Text) (left : Text) :
    packagesAt packages left = [] ∨ packagesAt packages left = packages := by
  unfold packagesAt
  split
  · exact Or.inl rfl
  · exact Or.inr rfl

theorem Rename.IsPlain.placeBehind {packages : List Text} {rename : Rename}
    (plain : rename.IsPlain packages) (left : Text) :
    rename.placeBehind .legacy left =
      (qualifierOf (packagesAt packages left) ++ rename.target.name).reverse ++ left := by
  rw [Rename.placeBehind, plain.qualifier, packagesAt]
  split <;> rfl

structure Candidate.IsPlain (packages : List Text) (candidate : Candidate) : Prop where
  rename : candidate.rename.IsPlain packages
  token : ∃ front, (front = [] ∨ front = packages) ∧
    candidate.token = qualifierOf front ++ candidate.rename.key

structure ArePackages (packages : List Text) : Prop where
  deep : 2 ≤ packages.length
  areRuns : ∀ package ∈ packages, Text.IsAsciiRun package

instance (packages : List Text) : Decidable (ArePackages packages) :=
  decidable_of_iff (2 ≤ packages.length ∧ ∀ package ∈ packages, Text.IsAsciiRun package)
    ⟨fun ⟨deep, areRuns⟩ => ⟨deep, areRuns⟩, fun shared => ⟨shared.deep, shared.areRuns⟩⟩

theorem ArePackages.ne_nil {packages : List Text} (shared : ArePackages packages) :
    packages ≠ [] := by
  rintro rfl
  exact absurd shared.deep (by decide)

theorem ArePackages.letterRuns {packages : List Text} (shared : ArePackages packages) :
    ∀ package ∈ packages, IsLetterRun package :=
  fun package member => (shared.areRuns package member).isLetterRun

variable {packages : List Text} {name line changed : Text} {before after : List Text}
  {candidate : Candidate} {context : UnitContext} {rules : Rules}

theorem Rename.IsPlain.stands_placed {rename : Rename} {left right : Text}
    (shared : ArePackages packages) (plain : rename.IsPlain packages)
    (isRun : IsLetterRun name) (notPackage : name ∉ packages) (different : rename.target.name ≠ name)
    (standalone : isStandalone left right = true)
    (stands : Text.Stands packages name before after
      ((rename.placeBehind .legacy left).reverse ++ right)) :
    (∃ more, Text.pieces left.reverse = before ++ (qualifierPieces packages ++ name :: more)) ∨
      ∃ between, between ≠ [] ∧
        before = (Text.pieces left.reverse ++ qualifierPieces (packagesAt packages left)) ++
          rename.target.name :: between ∧
        Text.pieces right = between ++ (qualifierPieces packages ++ name :: after) := by
  rw [plain.placeBehind, List.reverse_append, List.reverse_reverse, List.append_assoc] at stands
  exact Text.stands_spelled shared.letterRuns shared.ne_nil (packagesAt_cases packages left) isRun
    notPackage plain.target_run.isLetterRun plain.target_notMem different standalone stands

theorem Candidate.IsPlain.pieces_referred (shared : ArePackages packages)
    (plain : candidate.IsPlain packages) {left right : Text}
    (standalone : isStandalone left right = true) :
    ∃ front, (front = [] ∨ front = packages) ∧
      Text.pieces (left.reverse ++ (candidate.token ++ right)) =
        (Text.pieces left.reverse ++ qualifierPieces front) ++
          candidate.rename.key :: Text.pieces right := by
  obtain ⟨front, isFront, token⟩ := plain.token
  have frontRuns : ∀ package ∈ front, IsLetterRun package := by
    rcases isFront with rfl | rfl
    · simp
    · exact shared.letterRuns
  rw [token]
  exact ⟨front, isFront,
    Text.pieces_spelled frontRuns plain.rename.key_run.isLetterRun standalone⟩

/-- A name that stands behind the packages after a replacement stood there before, unless it is the
one put in, and what it stood behind ended in the same way. -/
theorem Candidate.Splices.stands_origin (shared : ArePackages packages)
    (plain : candidate.IsPlain packages) (legacyStyle : rules.style = .legacy)
    (isRun : IsLetterRun name) (notPackage : name ∉ packages)
    (different : candidate.rename.target.name ≠ name)
    (splices : candidate.Splices context rules line changed)
    (stands : Text.Stands packages name before after changed) :
    ∃ first last, Text.Stands packages name first last line ∧
      first.flatten.getLast? = before.flatten.getLast? := by
  cases splices with
  | @intro left right accepted =>
      have standalone := isStandalone_of_accepts accepted
      obtain ⟨front, _, spelled⟩ := plain.pieces_referred shared standalone
      rw [legacyStyle] at stands
      rcases plain.rename.stands_placed shared isRun notPackage different standalone stands with
        ⟨more, inFront⟩ | ⟨between, nonempty, beforeEq, behind⟩
      · refine ⟨before, more ++ (qualifierPieces front ++ candidate.rename.key :: Text.pieces right),
          ?_, rfl⟩
        rw [Text.Stands, spelled, inFront]
        simp
      · refine ⟨(Text.pieces left.reverse ++ qualifierPieces front) ++
          candidate.rename.key :: between, after, ?_, ?_⟩
        · rw [Text.Stands, spelled, behind]
          simp
        · have pieceNonempty : ∀ piece ∈ between, piece ≠ [] := by
            intro piece member empty
            have inRight : piece ∈ Text.pieces right := by simp [behind, member]
            exact Text.nil_notMem_pieces right (empty ▸ inRight)
          obtain ⟨others, last, split⟩ := (List.eq_nil_or_concat between).resolve_left nonempty
          have lastNonempty := pieceNonempty last (by simp [split])
          obtain ⟨c, isLast⟩ :=
            Option.ne_none_iff_exists'.mp (mt List.getLast?_eq_none_iff.mp lastNonempty)
          simp [beforeEq, split, isLast]

def Text.IsCleanOf (packages : List Text) (name line : Text) : Prop :=
  ∀ before after, Stands packages name before after line →
    ∀ c ∈ before.flatten.getLast?, isNameChar c = false

theorem Candidate.Splices.isCleanOf (shared : ArePackages packages)
    (plain : candidate.IsPlain packages) (legacyStyle : rules.style = .legacy)
    (isRun : IsLetterRun name) (notPackage : name ∉ packages)
    (different : candidate.rename.target.name ≠ name)
    (splices : candidate.Splices context rules line changed)
    (clean : Text.IsCleanOf packages name line) : Text.IsCleanOf packages name changed := by
  intro before after stands
  obtain ⟨first, last, stood, same⟩ :=
    splices.stands_origin shared plain legacyStyle isRun notPackage different stands
  rw [← same]
  exact clean first last stood

structure UnitContext.Permits (packages : List Text) (context : UnitContext) (rules : Rules) :
    Prop where
  unprotected : isProtected rules.protectedRoots (qualifierOf packages) = false
  undotted : ∀ name ∈ context.foreign, '.' ∉ name

theorem exists_qualifierOf_eq_append_dot (nonempty : packages ≠ []) :
    ∃ front, qualifierOf packages = front ++ ['.'] := by
  obtain ⟨others, last, split⟩ := (List.eq_nil_or_concat packages).resolve_left nonempty
  exact ⟨qualifierOf others ++ last, by simp [split, qualifierOf]⟩

theorem Candidate.accepts_behind (shared : ArePackages packages)
    (plain : candidate.rename.IsPlain packages) (permits : context.Permits packages rules)
    {left right : Text} (apart : right.head?.any isAlphabetic = false)
    (clean : ∀ c ∈ left.getLast?, isNameChar c = false) :
    candidate.accepts context rules (left ++ qualifierOf packages).reverse right = true := by
  obtain ⟨front, dotted⟩ := exists_qualifierOf_eq_append_dot shared.ne_nil
  have nameChars := Text.isNameChar_of_mem_qualifierOf shared.areRuns
  have stops : ∀ c ∈ left.reverse.head?, isNameChar c = false := by
    rwa [List.head?_reverse]
  have qualifier : qualifierBefore? (left ++ qualifierOf packages).reverse =
      some (qualifierOf packages) := by
    rw [List.reverse_append, qualifierBefore?_append_stop stops, qualifierBefore?_names nameChars,
      if_pos (by simp [dotted])]
  have standalone : isStandalone (left ++ qualifierOf packages).reverse right = true := by
    rw [isStandalone_iff]
    exact ⟨by simp [dotted, Text.isAlphabetic_dot], apart⟩
  have follows : followsQualifier candidate.rename.legacy.qualifier
      (left ++ qualifierOf packages).reverse = true := by
    simp [followsQualifier, plain.qualifier]
  rw [accepts, standalone, follows, qualifier]
  simp [permits.unprotected]

theorem Candidate.accepts_inFront (shared : ArePackages packages)
    (token : candidate.token = qualifierOf packages ++ candidate.rename.key)
    (permits : context.Permits packages rules)
    {left right : Text} (leftApart : left.getLast?.any isAlphabetic = false)
    (rightApart : right.head?.any isAlphabetic = false)
    (clean : ∀ c ∈ left.getLast?, isNameChar c = false) :
    candidate.accepts context rules left.reverse right = true := by
  have native : context.isForeign candidate.token = false := by
    apply Bool.eq_false_iff.mpr
    intro foreign
    have undotted := permits.undotted _ (List.contains_iff_mem.mp foreign)
    obtain ⟨front, dotted⟩ := exists_qualifierOf_eq_append_dot shared.ne_nil
    rw [token, dotted] at undotted
    simp at undotted
  have stops : ∀ c ∈ left.reverse.head?, isNameChar c = false := by
    rwa [List.head?_reverse]
  have noQualifier : qualifierBefore? ([] ++ left.reverse) = none :=
    qualifierBefore?_append_stop stops
  have standalone : isStandalone left.reverse right = true := by
    rw [isStandalone_iff, List.head?_reverse]
    exact ⟨leftApart, rightApart⟩
  rw [List.nil_append] at noQualifier
  simp [accepts, standalone, native, noQualifier]

theorem Candidate.IsPlain.accepts (shared : ArePackages packages)
    (plain : candidate.IsPlain packages) (permits : context.Permits packages rules)
    (clean : Text.IsCleanOf packages candidate.rename.key line)
    (stands : Text.Stands packages candidate.rename.key before after line)
    {left source : Text} {front : List Text} (isFront : front = [] ∨ front = packages)
    (token : candidate.token = qualifierOf front ++ candidate.rename.key)
    (here : line = left.reverse ++ source)
    (reached : left.length + (qualifierOf front).length =
      before.flatten.length + (qualifierOf packages).length) :
    ∃ behind, source = candidate.token ++ behind ∧
      candidate.accepts context rules left behind = true := by
  have leftApart := stands.before_apart shared.letterRuns shared.ne_nil
  have rightApart := stands.after_apart plain.rename.key_run.isLetterRun
  have cleanHere := clean before after stands
  have whole := here.symm.trans stands.line_eq
  refine ⟨after.flatten, ?_⟩
  rcases isFront with rfl | rfl
  · rw [← List.append_assoc] at whole
    have parts := List.append_inj whole (by simpa using reached)
    rw [← List.reverse_reverse left, parts.1, token]
    exact ⟨parts.2, accepts_behind shared plain.rename permits rightApart cleanHere⟩
  · have parts := List.append_inj whole (by simpa using reached)
    rw [← List.reverse_reverse left, parts.1]
    exact ⟨by rw [parts.2, token, List.append_assoc],
      accepts_inFront shared token permits leftApart rightApart cleanHere⟩

/-- Once the candidate of a clean name has run, the name stands nowhere behind the packages. What is
still ahead of the cursor is found, and a replacement leaves nothing behind. -/
theorem Candidate.Scans.not_stands (shared : ArePackages packages)
    (plain : candidate.IsPlain packages) (permits : context.Permits packages rules)
    (legacyStyle : rules.style = .legacy)
    (renamed : candidate.rename.target.name ≠ candidate.rename.key)
    {front : List Text} (isFront : front = [] ∨ front = packages)
    (token : candidate.token = qualifierOf front ++ candidate.rename.key)
    {left source result : Text} {count : Nat}
    (scans : candidate.Scans context rules left source result count)
    (clean : Text.IsCleanOf packages candidate.rename.key (left.reverse ++ source))
    (ahead : ∀ before after,
      Text.Stands packages candidate.rename.key before after (left.reverse ++ source) →
      left.length + (qualifierOf front).length ≤
        before.flatten.length + (qualifierOf packages).length) :
    ∀ before after, ¬Text.Stands packages candidate.rename.key before after result := by
  have keyPositive := List.length_pos_iff.mpr plain.rename.key_run.1
  have keyRun := plain.rename.key_run.isLetterRun
  have frontShort : (qualifierOf front).length ≤ (qualifierOf packages).length := by
    rcases isFront with rfl | rfl
    · exact Nat.zero_le _
    · exact Nat.le_refl _
  -- `ahead` says that the name stands nowhere in front of the cursor, and each step keeps that.
  induction scans using Candidate.scans_induction with
  | finished =>
      rename_i left
      intro before after stands
      have room := ahead before after (by simpa using stands)
      have measured := congrArg List.length stands.line_eq
      simp only [List.length_reverse, List.length_append] at measured
      omega
  | passed rejected later ih =>
      rename_i left c rest result count
      apply ih (by simpa using clean)
      intro before after stands
      rw [List.reverse_cons, List.append_assoc, List.cons_append, List.nil_append] at stands
      have room := ahead before after stands
      by_cases reached : left.length + (qualifierOf front).length =
          before.flatten.length + (qualifierOf packages).length
      · obtain ⟨behind, here, accepted⟩ :=
          plain.accepts shared permits clean stands isFront token rfl reached
        rw [rejected behind here] at accepted
        exact absurd accepted (by decide)
      · rw [List.length_cons]
        omega
  | replaced accepted later ih =>
      rename_i left behind result count
      have standalone := isStandalone_of_accepts accepted
      have cleanAfter := (Splices.intro accepted).isCleanOf shared plain legacyStyle keyRun
        plain.rename.key_notMem renamed clean
      apply ih cleanAfter
      intro before after stands
      rw [legacyStyle] at stands ⊢
      rcases plain.rename.stands_placed shared keyRun plain.rename.key_notMem renamed standalone stands
        with ⟨more, inFront⟩ | ⟨between, nonempty, beforeEq, behindEq⟩
      · -- The name would have stood in the part that the cursor has passed.
        have stood : ∃ last, Text.Stands packages candidate.rename.key before last
            (left.reverse ++ (candidate.token ++ behind)) := by
          obtain ⟨written, _, spelled⟩ := plain.pieces_referred shared standalone
          refine ⟨more ++ (qualifierPieces written ++ candidate.rename.key :: Text.pieces behind), ?_⟩
          rw [Text.Stands, spelled, inFront]
          simp
        obtain ⟨last, stood⟩ := stood
        have room := ahead before last stood
        have measured := congrArg List.length (congrArg List.flatten inFront)
        rw [Text.flatten_pieces] at measured
        simp only [List.length_reverse, List.flatten_append, List.flatten_cons, List.length_append,
          Text.flatten_qualifierPieces] at measured
        omega
      · have measured := congrArg List.length (congrArg List.flatten beforeEq)
        simp only [List.flatten_append, List.flatten_cons, List.length_append, Text.flatten_pieces,
          Text.flatten_qualifierPieces, List.length_reverse] at measured
        simp only [plain.rename.placeBehind, List.length_append, List.length_reverse]
        omega

theorem applyCandidates_not_stands (shared : ArePackages packages) (legacyStyle : rules.style = .legacy)
    {candidates : List Candidate} (plain : ∀ candidate ∈ candidates, candidate.IsPlain packages)
    (isRun : IsLetterRun name) (notPackage : name ∉ packages)
    (fresh : ∀ candidate ∈ candidates, candidate.rename.target.name ≠ name)
    (absent : ∀ before after, ¬Text.Stands packages name before after line) :
    ∀ before after,
      ¬Text.Stands packages name before after (applyCandidates candidates context rules line).1 := by
  refine applyCandidates_preserves (motive := fun text =>
    ∀ before after, ¬Text.Stands packages name before after text) ?_ absent
  intro candidate member line changed splices absentBefore before after stands
  obtain ⟨first, last, stood, _⟩ := splices.stands_origin shared (plain candidate member) legacyStyle
    isRun notPackage (fresh candidate member) stands
  exact absentBefore first last stood

theorem not_stands_applyCandidates (shared : ArePackages packages)
    (permits : context.Permits packages rules) (legacyStyle : rules.style = .legacy)
    {candidates : List Candidate} (plain : ∀ candidate ∈ candidates, candidate.IsPlain packages)
    (fresh : ∀ candidate ∈ candidates, candidate.rename.target.name ≠ name)
    {own : Candidate} (member : own ∈ candidates) (isOwn : own.rename.key = name)
    (clean : Text.IsCleanOf packages name line) :
    ∀ before after,
      ¬Text.Stands packages name before after (applyCandidates candidates context rules line).1 := by
  subst isOwn
  obtain ⟨earlier, later, split⟩ := List.append_of_mem member
  subst split
  have ownPlain := plain own member
  have keyRun := ownPlain.rename.key_run.isLetterRun
  have notPackage := ownPlain.rename.key_notMem
  obtain ⟨front, isFront, token⟩ := ownPlain.token
  have cleanThen : Text.IsCleanOf packages own.rename.key
      (applyCandidates earlier context rules line).1 := by
    refine applyCandidates_preserves ?_ clean
    intro other before line changed splices cleanBefore
    have inAll : other ∈ earlier ++ own :: later := List.mem_append_left _ before
    exact splices.isCleanOf shared (plain other inAll) legacyStyle keyRun notPackage
      (fresh other inAll) cleanBefore
  have goneThen := (own.scans_apply context rules
    (applyCandidates earlier context rules line).1).not_stands shared ownPlain permits legacyStyle
      (fresh own member) isFront token cleanThen (by
        intro before after _
        rcases isFront with rfl | rfl
        · simp
        · simp)
  have inAll : ∀ other ∈ later, other ∈ earlier ++ own :: later := fun other behind =>
    List.mem_append_right _ (List.mem_cons_of_mem own behind)
  rw [applyCandidates_append, applyCandidates_cons]
  exact applyCandidates_not_stands shared legacyStyle (fun other behind => plain other (inAll other behind))
    keyRun notPackage (fun other behind => fresh other (inAll other behind)) goneThen

end NameMigration
