import NameMigration.Proofs.ByteOffsets
import NameMigration.Proofs.LetterRuns
import NameMigration.Proofs.ScanDivision

/-!
Tests on dotted names, by their segments. The tests compare texts character by character. Since the
segments of two texts with a dot between them are those of the one and then those of the other, a
namespace is in front of a path exactly when its segments are the first ones of the path, wherever dots
stand. The qualifier in front of a place is the longest end of the text there that a dotted name can have.
-/

namespace NameMigration

open Text (isNameChar)

/-! ### Namespaces -/

namespace Text

variable {space path : Text} {others : List Text}

theorem eq_append_of_segments (parts : path.segments = space.segments ++ others) :
    path = space ++ others.flatMap ('.' :: ·) := by
  obtain ⟨first, rest, spelled⟩ := List.exists_cons_of_ne_nil (segments_ne_nil space)
  have spaceJoined := joinWith_segments space
  have pathJoined := joinWith_segments path
  rw [spelled, joinWith_cons] at spaceJoined
  rw [parts, spelled, List.cons_append, joinWith_cons, List.flatMap_append, ← List.append_assoc,
    spaceJoined] at pathJoined
  exact pathJoined.symm

/-- Segments may be empty, so dots at either end and doubled ones are told apart. -/
theorem segments_prefix_iff :
    space.segments <+: path.segments ↔ path = space ∨ ∃ rest, path = space ++ '.' :: rest := by
  constructor
  · rintro ⟨others, parts⟩
    have whole := eq_append_of_segments parts.symm
    cases others with
    | nil => exact Or.inl (by simpa using whole)
    | cons next more => exact Or.inr ⟨next ++ more.flatMap ('.' :: ·), by simpa using whole⟩
  · rintro (rfl | ⟨rest, rfl⟩)
    · exact List.prefix_refl _
    · rw [segments_append_dot]
      exact List.prefix_append _ _

end Text

theorem inNamespace_iff_segments {space path : Text} :
    inNamespace space path = true ↔ space.segments <+: path.segments := by
  rw [inNamespace_iff, Text.segments_prefix_iff]

example : inNamespace "a.".toList "a..b".toList = true ∧ inNamespace "a.".toList "a.b".toList = false ∧
    inNamespace [] ".b".toList = true ∧ inNamespace [] "b".toList = false := by
  decide

/-! ### Qualifiers -/

namespace Text

variable {good : Char → Bool} {ending text : Text}

/-- Whether the first text is the longest one, of characters of a class only, that ends the second. -/
structure IsLongestEnd (good : Char → Bool) (ending text : Text) : Prop where
  isEnd : ending <:+ text
  allGood : ∀ c ∈ ending, good c = true
  longest : ∀ other, other <:+ text → (∀ c ∈ other, good c = true) → other.length ≤ ending.length

theorem suffix_rtakeWhile (isEnd : ending <:+ text) (allGood : ∀ c ∈ ending, good c = true) :
    ending <:+ text.rtakeWhile good := by
  obtain ⟨front, rfl⟩ := isEnd
  have reversed : ∀ c ∈ ending.reverse, good c = true := by simpa using allGood
  rw [List.rtakeWhile, List.reverse_append, List.takeWhile_append_of_pos reversed, List.reverse_append,
    List.reverse_reverse]
  exact List.suffix_append _ _

theorem isLongestEnd_iff : IsLongestEnd good ending text ↔ text.rtakeWhile good = ending := by
  have isEnd : text.rtakeWhile good <:+ text := List.rtakeWhile_suffix good text
  have allGood : ∀ c ∈ text.rtakeWhile good, good c = true := fun c => List.mem_rtakeWhile_imp
  constructor
  · intro longest
    have within := suffix_rtakeWhile longest.isEnd longest.allGood
    have noLonger := longest.longest _ isEnd allGood
    exact (within.eq_of_length_le noLonger).symm
  · rintro rfl
    exact ⟨isEnd, allGood, fun other otherEnd otherGood =>
      (suffix_rtakeWhile otherEnd otherGood).length_le⟩

end Text

/-- The qualifier in front of an offset of the line. -/
def qualifierAt? (line : Text) (offset : Nat) : Option Text :=
  qualifierBefore? (line.splitAtByte offset).1.reverse

theorem qualifierAt?_append (before behind : Text) :
    qualifierAt? (before ++ behind) before.utf8Length =
      if before.getLast? = some '.' then some (before.rtakeWhile isNameChar) else none := by
  rw [qualifierAt?, Text.splitAtByte_utf8Length, qualifierBefore?_reverse]

/-- A path is in a namespace exactly when its first segments are those of the namespace, and a qualifier
is protected exactly when its first segments are those of a root that is not empty. A place in a line has
a qualifier exactly when a dot stands in front of it; the qualifier is then the longest end of the text
there that has only ASCII letters, digits, underscores, dollar signs and dots. -/
theorem nameTests_bySegments :
    (∀ space path, inNamespace space path = true ↔ space.segments <+: path.segments) ∧
    (∀ roots qualifier, isProtected roots qualifier = true ↔
      ∃ root ∈ roots, root ≠ [] ∧ root.segments <+: qualifier.segments) ∧
    ∀ before behind : Text,
      let qualifier? := qualifierAt? (before ++ behind) before.utf8Length
      (qualifier?.isSome = true ↔ before.getLast? = some '.') ∧
      ∀ qualifier, qualifier? = some qualifier ↔
        before.getLast? = some '.' ∧ Text.IsLongestEnd isNameChar qualifier before := by
  refine ⟨fun space path => inNamespace_iff_segments, fun roots qualifier => ?_, ?_⟩
  · simp only [isProtected_iff, inNamespace_iff_segments]
  · intro before behind
    simp only [qualifierAt?_append, Text.isLongestEnd_iff]
    by_cases dotted : before.getLast? = some '.' <;> simp [dotted]

end NameMigration
