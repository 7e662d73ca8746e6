import NameMigration.Proofs.LastEntry

/-!
Entries as a mapping file writes them: the legacy and the new path of a class with blanks between
them, packages divided by slashes and classes by dollars. Such a line is read as the one renaming it
stands for. Both paths show in the renaming, so different entries are never read as the same one.
-/

namespace NameMigration

namespace Text

structure IsPathPart (part : Text) : Prop where
  ne_nil : part ≠ []
  notBlank : ∀ c ∈ part, isBlank c = false
  undivided : '.' ∉ part ∧ '/' ∉ part ∧ '$' ∉ part

instance (part : Text) : Decidable (IsPathPart part) :=
  decidable_of_iff (part ≠ [] ∧ part.all (!isBlank ·) = true ∧ '.' ∉ part ∧ '/' ∉ part ∧ '$' ∉ part)
    ⟨fun ⟨nonempty, notBlank, undivided⟩ => ⟨nonempty, by simpa using notBlank, undivided⟩,
      fun isPart => ⟨isPart.ne_nil, by simpa using isPart.notBlank, isPart.undivided⟩⟩

theorem mem_or_exists_of_mem_joinWith {separator : Text} {parts : List Text} {c : Char}
    (member : c ∈ joinWith separator parts) : c ∈ separator ∨ ∃ part ∈ parts, c ∈ part := by
  cases parts with
  | nil => exact absurd member (by simp [joinWith])
  | cons first rest =>
      rw [joinWith_cons, List.mem_append, List.mem_flatMap] at member
      rcases member with inFirst | ⟨part, inRest, here⟩
      · exact Or.inr ⟨first, by simp, inFirst⟩
      · rcases List.mem_append.mp here with inSeparator | inPart
        · exact Or.inl inSeparator
        · exact Or.inr ⟨part, by simp [inRest], inPart⟩

theorem joinWith_ne_nil (separator : Text) {parts : List Text} (nonempty : parts ≠ [])
    (areParts : ∀ part ∈ parts, IsPathPart part) : joinWith separator parts ≠ [] := by
  cases parts with
  | nil => exact absurd rfl nonempty
  | cons first rest => simp [joinWith_cons, (areParts first (by simp)).ne_nil]

theorem map_joinWith {replace : Char → Char} {parts : List Text} (separator : Text)
    (kept : ∀ part ∈ parts, ∀ c ∈ part, replace c = c) :
    (joinWith separator parts).map replace = joinWith (separator.map replace) parts := by
  have same : ∀ part ∈ parts, part.map replace = part := by
    intro part member
    rw [List.map_congr_left (kept part member), List.map_id']
  cases parts with
  | nil => rfl
  | cons first rest =>
      rw [joinWith_cons, joinWith_cons, List.map_append, same first (by simp), List.map_flatMap]
      congr 1
      refine List.flatMap_congr ?_
      intro part member
      rw [List.map_append, same part (by simp [member])]

theorem qualifierOf_eq (packages : List Text) : qualifierOf packages =
    if packages = [] then [] else joinWith ['.'] packages ++ ['.'] := by
  induction packages with
  | nil => rfl
  | cons first rest ih =>
      rw [qualifierOf_cons, ih, if_neg (List.cons_ne_nil first rest)]
      cases rest with
      | nil => simp [joinWith]
      | cons second others => simp [joinWith, List.intercalate_cons_cons]

theorem segments_joinWith_dot {parts : List Text} (nonempty : parts ≠ [])
    (areParts : ∀ part ∈ parts, IsPathPart part) : segments (joinWith ['.'] parts) = parts :=
  List.splitOn_intercalate '.' (fun part member => (areParts part member).undivided.1) nonempty

theorem words_append_blank {blank : Char} (isBlank : isBlank blank = true) (front rest : Text) :
    words (front ++ blank :: rest) = front.words ++ rest.words := by
  rw [words, List.splitOnP_append_cons front rest isBlank, List.filter_append, ← words, ← words]

theorem words_of_notBlank {word : Text} (nonempty : word ≠ [])
    (notBlank : ∀ c ∈ word, isBlank c = false) : words word = [word] := by
  rw [words, List.splitOnP_eq_singleton (by simpa using notBlank)]
  simp [nonempty]

theorem words_append_gap {gap : Text} (written : gap ≠ [])
    (areBlank : ∀ c ∈ gap, isBlank c = true) (front rest : Text) :
    words (front ++ (gap ++ rest)) = front.words ++ rest.words := by
  induction gap generalizing front with
  | nil => exact absurd rfl written
  | cons blank more ih =>
      rw [List.cons_append, words_append_blank (areBlank blank (by simp))]
      by_cases isLast : more = []
      · rw [isLast, List.nil_append]
      · have goesOn := ih isLast (fun c member => areBlank c (by simp [member])) []
        rw [List.nil_append] at goesOn
        rw [goesOn]
        rfl

end Text

open Text (isBlank joinWith qualifierOf IsPathPart)

/-! ### Paths -/

structure ClassPath where
  packages : List Text
  classes : List Text
  classes_ne_nil : classes ≠ []
  arePackages : ∀ part ∈ packages, IsPathPart part
  areClasses : ∀ part ∈ classes, IsPathPart part

namespace ClassPath

def written (path : ClassPath) : Text :=
  joinWith ['/'] (path.packages ++ [joinWith ['$'] path.classes])

def className (path : ClassPath) : ClassName where
  qualifier := if path.packages = [] then [] else joinWith ['.'] path.packages ++ ['.']
  name := joinWith ['.'] path.classes

variable (path : ClassPath)

theorem segments_name : path.className.name.segments = path.classes :=
  Text.segments_joinWith_dot path.classes_ne_nil path.areClasses

theorem mem_written {c : Char} (member : c ∈ path.written) :
    c = '/' ∨ c = '$' ∨ ∃ part, IsPathPart part ∧ c ∈ part := by
  rcases Text.mem_or_exists_of_mem_joinWith member with isSlash | ⟨part, isPart, here⟩
  · exact Or.inl (List.mem_singleton.mp isSlash)
  rcases List.mem_append.mp isPart with isPackage | isLast
  · exact Or.inr (Or.inr ⟨part, path.arePackages part isPackage, here⟩)
  rw [List.mem_singleton.mp isLast] at here
  rcases Text.mem_or_exists_of_mem_joinWith here with isDollar | ⟨name, isClass, inName⟩
  · exact Or.inr (Or.inl (List.mem_singleton.mp isDollar))
  · exact Or.inr (Or.inr ⟨name, path.areClasses name isClass, inName⟩)

theorem notBlank_written : ∀ c ∈ path.written, isBlank c = false := by
  intro c member
  rcases path.mem_written member with rfl | rfl | ⟨part, isPart, here⟩
  · decide
  · decide
  · exact isPart.notBlank c here

theorem splitOn_written :
    path.written.splitOn '/' = path.packages ++ [joinWith ['$'] path.classes] := by
  refine List.splitOn_intercalate '/' ?_ (by simp)
  intro part isPart
  rcases List.mem_append.mp isPart with isPackage | isLast
  · exact (path.arePackages part isPackage).undivided.2.1
  · rw [List.mem_singleton.mp isLast]
    intro member
    rcases Text.mem_or_exists_of_mem_joinWith member with isDollar | ⟨name, isClass, inName⟩
    · exact absurd isDollar (by decide)
    · exact (path.areClasses name isClass).undivided.2.1 inName

theorem written_ne_nil : path.written ≠ [] := by
  intro isEmpty
  have pieces := path.splitOn_written
  rw [isEmpty, List.splitOn_nil] at pieces
  have nonempty := Text.joinWith_ne_nil ['$'] path.classes_ne_nil path.areClasses
  rcases List.append_eq_singleton_iff.mp pieces.symm with ⟨-, last⟩ | ⟨-, last⟩
  · exact nonempty (List.singleton_inj.mp last)
  · exact absurd last (by simp)

/-- A written path is read as the class name it stands for. -/
theorem ofPath?_written : ClassName.ofPath? path.written = some path.className := by
  have dotted : (joinWith ['$'] path.classes).map (fun c => if c = '$' then '.' else c) =
      path.className.name := by
    refine Text.map_joinWith ['$'] ?_
    intro part isClass c inPart
    refine if_neg ?_
    rintro rfl
    exact (path.areClasses part isClass).undivided.2.2 inPart
  have noEmptyPackage : [] ∉ path.packages := fun member => (path.arePackages [] member).ne_nil rfl
  have noEmptyClass : [] ∉ path.classes := fun member => (path.areClasses [] member).ne_nil rfl
  unfold ClassName.ofPath?
  rw [path.splitOn_written, List.dropLast_concat, List.getLastD_concat]
  simp only
  rw [dotted, path.segments_name, if_neg (not_or.mpr ⟨noEmptyPackage, noEmptyClass⟩)]
  rw [className, ← Text.qualifierOf_eq, qualifierOf]

theorem className_injective : Function.Injective className := by
  intro first second same
  have sameQualifier : qualifierOf first.packages = qualifierOf second.packages := by
    simpa only [className, ← Text.qualifierOf_eq] using congrArg ClassName.qualifier same
  have samePackages : first.packages = second.packages := by
    have parts (path : ClassPath) :
        (qualifierOf path.packages).segments = path.packages ++ [[]] := by
      have undivided : path.packages.flatMap Text.segments = path.packages.flatMap ([·]) :=
        List.flatMap_congr fun part member =>
          List.splitOn_eq_singleton (path.arePackages part member).undivided.1
      have split := Text.segments_qualifierOf path.packages []
      rwa [List.append_nil, undivided, List.flatMap_singleton'] at split
    have sameParts := congrArg Text.segments sameQualifier
    rw [parts, parts] at sameParts
    exact List.append_cancel_right sameParts
  have sameClasses : first.classes = second.classes := by
    rw [← first.segments_name, ← second.segments_name, same]
  obtain ⟨packages, classes, _, _, _⟩ := first
  obtain ⟨others, otherClasses, _, _, _⟩ := second
  cases samePackages
  cases sameClasses
  rfl

end ClassPath

/-! ### Lines -/

/-- Blanks at the end of a text that has none at either end. -/
theorem Text.trim_append_blank {text ending : Text} (nonempty : text ≠ [])
    (starts : ∀ c ∈ text.head?, isBlank c = false) (ends : ∀ c ∈ text.getLast?, isBlank c = false)
    (blankEnding : ∀ c ∈ ending, isBlank c = true) : trim (text ++ ending) = text := by
  have startKept : trimStart (text ++ ending) = text ++ ending := by
    obtain ⟨first, rest, rfl⟩ := List.exists_cons_of_ne_nil nonempty
    simp [trimStart, starts first rfl]
  have endDropped : (ending.reverse ++ text.reverse).dropWhile isBlank = text.reverse :=
    dropWhile_append_stop (by simpa using blankEnding) (by simpa using ends)
  rw [trim, startKept, trimEnd, List.reverse_append, endDropped, List.reverse_reverse]

theorem MappingLine.isMember_eq_false {line : Text}
    (starts : ∀ c ∈ line.head?, isBlank c = false) : isMember line = false := by
  cases line with
  | nil => rfl
  | cons first rest =>
      have notBlank := starts first rfl
      have notSpace : ' ' ≠ first := by
        rintro rfl
        exact absurd notBlank (by decide)
      have notTab : '\t' ≠ first := by
        rintro rfl
        exact absurd notBlank (by decide)
      simp [isMember, List.isPrefixOf, notSpace, notTab]

section Line

variable {legacy target : ClassPath} {gap ending : Text}

theorem Rename.ofEntry?_written (gapWritten : gap ≠ []) (blankGap : ∀ c ∈ gap, isBlank c = true)
    (short : target.classes.length ≤ 2) :
    ofEntry? (legacy.written ++ (gap ++ target.written)) =
      some ⟨legacy.className, target.className⟩ := by
  have words : (legacy.written ++ (gap ++ target.written)).words =
      [legacy.written, target.written] := by
    rw [Text.words_append_gap gapWritten blankGap,
      Text.words_of_notBlank legacy.written_ne_nil legacy.notBlank_written,
      Text.words_of_notBlank target.written_ne_nil target.notBlank_written]
    rfl
  unfold Rename.ofEntry?
  simp [words, ClassPath.ofPath?_written, ClassPath.segments_name, short]

theorem MappingLine.ofText_written (gapWritten : gap ≠ [])
    (blankGap : ∀ c ∈ gap, isBlank c = true) (blankEnding : ∀ c ∈ ending, isBlank c = true)
    (noComment : legacy.written.head? ≠ some '#') (short : target.classes.length ≤ 2) :
    ofText (legacy.written ++ (gap ++ target.written) ++ ending) =
      .entry ⟨legacy.className, target.className⟩ := by
  have nonempty : legacy.written ++ (gap ++ target.written) ≠ [] :=
    List.append_ne_nil_of_left_ne_nil legacy.written_ne_nil _
  have first : (legacy.written ++ (gap ++ target.written)).head? = legacy.written.head? :=
    List.head?_append_of_ne_nil _ legacy.written_ne_nil
  have starts : ∀ c ∈ (legacy.written ++ (gap ++ target.written)).head?, isBlank c = false := by
    intro c isFirst
    rw [first] at isFirst
    exact legacy.notBlank_written c (List.mem_of_mem_head? isFirst)
  have ends : ∀ c ∈ (legacy.written ++ (gap ++ target.written)).getLast?, isBlank c = false := by
    intro c isLast
    rw [← List.append_assoc, List.getLast?_append_of_ne_nil _ target.written_ne_nil] at isLast
    exact target.notBlank_written c (List.mem_of_mem_getLast? isLast)
  have trimmed := Text.trim_append_blank nonempty starts ends blankEnding
  have lineStarts : ∀ c ∈ (legacy.written ++ (gap ++ target.written) ++ ending).head?,
      isBlank c = false := by
    rwa [List.head?_append_of_ne_nil _ nonempty]
  have isEntry : isEntryLine (legacy.written ++ (gap ++ target.written) ++ ending) = true := by
    rw [isEntryLine, isMember_eq_false lineStarts, trimmed, first]
    cases isFirst : legacy.written.head? with
    | none => exact absurd (List.head?_eq_none_iff.mp isFirst) legacy.written_ne_nil
    | some c => simpa [isFirst] using noComment
  rw [ofText_eq, if_pos isEntry, trimmed, Rename.ofEntry?_written gapWritten blankGap short]

/-- A line with two written paths is the only renaming of its mapping, among the flat ones if the new
class stands alone and among the nested ones if it is inside another. No other paths have this
renaming. -/
theorem Mapping.ofLines_written (gapWritten : gap ≠ [])
    (blankGap : ∀ c ∈ gap, isBlank c = true) (blankEnding : ∀ c ∈ ending, isBlank c = true)
    (noComment : legacy.written.head? ≠ some '#') (short : target.classes.length ≤ 2) :
    let mapping := ofLines [legacy.written ++ (gap ++ target.written) ++ ending]
    let rename : Rename := ⟨legacy.className, target.className⟩
    mapping.renames = [rename] ∧ mapping.malformed = 0 ∧
      (target.classes.length = 1 → mapping.flat = [rename] ∧ mapping.nested = []) ∧
      (target.classes.length = 2 → mapping.flat = [] ∧ mapping.nested = [rename]) ∧
      ∀ other otherTarget : ClassPath, rename = ⟨other.className, otherTarget.className⟩ →
        other = legacy ∧ otherTarget = target := by
  intro mapping rename
  have read : mapping = addLine empty (legacy.written ++ (gap ++ target.written) ++ ending) := rfl
  have onlyOne : mapping.renames = [rename] ∧ mapping.malformed = 0 := by
    rw [read, addLine,
      MappingLine.ofText_written gapWritten blankGap blankEnding noComment short]
    exact ⟨rfl, rfl⟩
  refine ⟨onlyOne.1, onlyOne.2, ?_, ?_, ?_⟩
  · intro alone
    have isFlat : rename.isNested = false := by
      rw [isNested_eq_false_iff, target.segments_name, alone]
    simp [flat, nested, onlyOne.1, isFlat]
  · intro inside
    have isNested : rename.isNested = true := by
      rw [← Bool.not_eq_false, isNested_eq_false_iff, target.segments_name, inside]
      decide
    simp [flat, nested, onlyOne.1, isNested]
  · intro other otherTarget same
    obtain ⟨sameLegacy, sameTarget⟩ := Rename.mk.inj same
    exact ⟨ClassPath.className_injective sameLegacy.symm,
      ClassPath.className_injective sameTarget.symm⟩

end Line

def boxLidHinge : ClassPath where
  packages := ["net".toList, "old".toList]
  classes := ["Box".toList, "Lid".toList, "Hinge".toList]
  classes_ne_nil := List.cons_ne_nil _ _
  arePackages := by decide +kernel
  areClasses := by decide +kernel

def crateCover : ClassPath where
  packages := []
  classes := ["Crate".toList, "Cover".toList]
  classes_ne_nil := List.cons_ne_nil _ _
  arePackages := by decide
  areClasses := by decide +kernel

theorem ofLines_boxLidHinge :
    boxLidHinge.written ++ ([' ', '\t'] ++ crateCover.written) ++ [' '] =
        "net/old/Box$Lid$Hinge \tCrate$Cover ".toList ∧
      boxLidHinge.written.head? ≠ some '#' ∧ crateCover.classes.length = 2 ∧
      (Mapping.ofLines [boxLidHinge.written ++ ([' ', '\t'] ++ crateCover.written) ++ [' ']]).nested =
        [⟨⟨"net.old.".toList, "Box.Lid.Hinge".toList⟩, ⟨[], "Crate.Cover".toList⟩⟩] := by
  have noComment : boxLidHinge.written.head? ≠ some '#' := by decide +kernel
  have inside : crateCover.classes.length = 2 := rfl
  have blankGap : ∀ c ∈ [' ', '\t'], isBlank c = true := List.all_eq_true.mp (by decide)
  have blankEnding : ∀ c ∈ [' '], isBlank c = true := List.all_eq_true.mp (by decide)
  have read := Mapping.ofLines_written (List.cons_ne_nil ' ' ['\t']) blankGap blankEnding noComment
    inside.le
  have named : (⟨boxLidHinge.className, crateCover.className⟩ : Rename) =
      ⟨⟨"net.old.".toList, "Box.Lid.Hinge".toList⟩, ⟨[], "Crate.Cover".toList⟩⟩ := by
    decide +kernel
  exact ⟨by decide +kernel, noComment, inside, named ▸ (read.2.2.2.1 inside).2⟩

end NameMigration
