import Mathlib.Data.List.TakeWhile
import NameMigration.Proofs.LetterRuns
import NameMigration.Substitution.Position

/-!
Places in a line. A place is decided by the run of name characters that it stands in: beyond the
character that ends the run nothing counts, so the text further to the left may be any other one.
-/

namespace NameMigration

open Text (isAlphabetic isNameChar)

namespace Text

variable {name front behind rest token : Text}

theorem prefix_append_stop_iff (names : ∀ c ∈ name, isNameChar c = true)
    (stops : ∀ c ∈ rest.head?, isNameChar c = false) : name <+: front ++ rest ↔ name <+: front := by
  constructor
  · intro starts
    rcases List.prefix_or_prefix_of_prefix starts (List.prefix_append front rest) with
      inside | ⟨more, rfl⟩
    · exact inside
    · rw [List.prefix_append_right_inj] at starts
      cases more with
      | nil => simp
      | cons c others =>
          obtain ⟨tail, rfl⟩ := starts
          have isName := names c (by simp)
          rw [stops c (by simp)] at isName
          exact absurd isName (by decide)
  · exact fun inside => inside.trans (List.prefix_append front rest)

/-- A name at the start of a text ends in front of the first character that is no name character. -/
theorem exists_eq_append_stop (names : ∀ c ∈ token, isNameChar c = true)
    (stops : ∀ c ∈ rest.head?, isNameChar c = false) (here : front ++ rest = token ++ behind) :
    ∃ back, front = token ++ back ∧ behind = back ++ rest := by
  obtain ⟨back, rfl⟩ := (prefix_append_stop_iff names stops).mp ⟨behind, here.symm⟩
  rw [List.append_assoc] at here
  exact ⟨back, rfl, (List.append_cancel_left here).symm⟩

end Text

theorem isStandalone_iff {left right : Text} :
    isStandalone left right = true ↔
      left.head?.any isAlphabetic = false ∧ right.head?.any isAlphabetic = false := by
  simp [isStandalone]

variable {qualifier left front rest : Text} {rename : Rename}

theorem followsQualifier_append_stop (names : ∀ c ∈ qualifier, isNameChar c = true)
    (stops : ∀ c ∈ rest.head?, isNameChar c = false) :
    followsQualifier qualifier (left ++ rest) = followsQualifier qualifier left := by
  have reversed : ∀ c ∈ qualifier.reverse, isNameChar c = true := by simpa using names
  rw [Bool.eq_iff_iff, followsQualifier, followsQualifier, List.isPrefixOf_iff_prefix,
    List.isPrefixOf_iff_prefix]
  exact Text.prefix_append_stop_iff reversed stops

theorem qualifierBefore?_append_stop (stops : ∀ c ∈ rest.head?, isNameChar c = false) :
    qualifierBefore? (left ++ rest) = qualifierBefore? left := by
  have nothing : rest.takeWhile isNameChar = [] := by
    cases rest with
    | nil => rfl
    | cons c others => simp [stops c (by simp)]
  have shared : (left ++ rest).takeWhile isNameChar = left.takeWhile isNameChar := by
    rw [List.takeWhile_append]
    split
    · rename_i whole
      rw [nothing, List.append_nil]
      exact (List.IsPrefix.eq_of_length (List.takeWhile_prefix _) whole).symm
    · rfl
  cases left with
  | nil =>
      cases rest with
      | nil => rfl
      | cons c others =>
          have notDot : c ≠ '.' := by
            rintro rfl
            exact absurd (stops '.' (by simp)) (by decide)
          simp [qualifierBefore?, notDot]
  | cons d others =>
      by_cases isDot : d = '.'
      · subst isDot
        rw [List.cons_append] at shared ⊢
        simp only [qualifierBefore?, shared]
      · simp [qualifierBefore?, isDot]

theorem qualifierBefore?_names (names : ∀ c ∈ front, isNameChar c = true) :
    qualifierBefore? front.reverse = if front.getLast? = some '.' then some front else none := by
  rcases List.eq_nil_or_concat front with rfl | ⟨others, last, rfl⟩
  · rfl
  · rw [List.concat_eq_append] at names ⊢
    have whole : (others ++ [last]).reverse.takeWhile isNameChar = (others ++ [last]).reverse :=
      List.takeWhile_eq_self_iff.mpr fun c member => names c (List.mem_reverse.mp member)
    rw [List.reverse_append] at whole ⊢
    by_cases isDot : last = '.'
    · subst isDot
      simp only [List.reverse_singleton, List.singleton_append, qualifierBefore?] at whole ⊢
      rw [whole]
      simp
    · simp [qualifierBefore?, isDot]

theorem Rename.placeBehind_append_stop (names : ∀ c ∈ rename.legacy.qualifier, isNameChar c = true)
    (stops : ∀ c ∈ rest.head?, isNameChar c = false) (style : QualifierStyle) :
    rename.placeBehind style (left ++ rest) = rename.placeBehind style left ++ rest := by
  have follows : followsQualifier rename.legacy.qualifier (left ++ rest) =
      followsQualifier rename.legacy.qualifier left := followsQualifier_append_stop names stops
  by_cases behindQualifier : followsQualifier rename.legacy.qualifier left = true
  · have short : rename.legacy.qualifier.length ≤ left.length := by
      have starts := List.isPrefixOf_iff_prefix.mp behindQualifier
      simpa using starts.length_le
    cases style <;>
      simp [Rename.placeBehind, follows, behindQualifier, List.drop_append_of_le_length short]
  · cases style <;> simp [Rename.placeBehind, follows, behindQualifier]

end NameMigration
