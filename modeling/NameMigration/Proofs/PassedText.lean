import NameMigration.Proofs.Scan
import NameMigration.Unit.Migration

/-!
Scans over text where there is nothing to find. The cursor passes such text as it is, so a token that is
found at one place is replaced there, and what stands in front of it and behind it stays.
-/

namespace NameMigration

/-- Wherever the needle stands in the text, `passed` characters are in front of it. -/
def Text.StandsBehind (needle : Text) (passed : Nat) (text : Text) : Prop :=
  ∀ before rest, text = before ++ (needle ++ rest) → passed ≤ before.length

namespace Text.StandsBehind

variable {needle rest : Text} {passed : Nat} {c : Char}

theorem tail (behind : StandsBehind needle (passed + 1) (c :: rest)) :
    StandsBehind needle passed rest := by
  intro before after here
  have longer := behind (c :: before) after (by simp [here])
  simpa using longer

theorem not_front (behind : StandsBehind needle (passed + 1) (c :: rest)) (after : Text) :
    c :: rest ≠ needle ++ after := by
  intro front
  exact absurd (behind [] after front) (by simp)

theorem of_not_infix {text : Text} (absent : ¬needle <:+: text) : StandsBehind needle passed text := by
  intro before after here
  exact absurd ⟨before, after, by rw [here, List.append_assoc]⟩ absent

/-- A needle that does not stand in the text in front, and has none of its characters at the end of it,
stands behind it. -/
theorem of_apart {front text : Text} (absent : ¬needle <:+: front)
    (apart : ∀ c ∈ front.getLast?, c ∉ needle) : StandsBehind needle front.length (front ++ text) := by
  intro before after here
  rcases List.append_eq_append_iff.mp here with ⟨more, longer, _⟩ | ⟨more, split, tail⟩
  · rw [longer, List.length_append]
    exact Nat.le_add_right _ _
  · rcases List.append_eq_append_iff.mp tail with ⟨extra, moreSplit, _⟩ | ⟨extra, needleSplit, _⟩
    · exact absurd ⟨before, extra, by rw [split, moreSplit, List.append_assoc]⟩ absent
    · rcases List.eq_nil_or_concat more with empty | ⟨others, last, ends⟩
      · simp [split, empty]
      · have inNeedle : last ∈ needle := by simp [needleSplit, ends]
        exact absurd inNeedle (apart last (by simp [split, ends]))

end Text.StandsBehind

namespace Text

variable {needle rest behind text : Text} {c : Char}

theorem followers_passed (notFront : ∀ behind, c :: rest ≠ needle ++ behind) :
    followers needle (c :: rest) = followers needle rest := by
  rw [followers]
  split
  · rfl
  · rename_i behind found
    exact absurd (after?_eq_some_iff.mp found) (notFront behind)

theorem followers_append (nonempty : needle ≠ []) :
    followers needle (needle ++ behind) = behind :: followers needle behind := by
  have found := after?_append needle behind
  obtain ⟨c, rest, first⟩ := List.exists_cons_of_ne_nil nonempty
  rw [first, List.cons_append] at found ⊢
  rw [followers]
  split
  · rename_i notFound
    rw [found] at notFound
    exact absurd notFound (by simp)
  · rename_i other foundOther
    rw [found, Option.some.injEq] at foundOther
    subst other
    rw [dif_neg (by simp)]

theorem followers_of_not_infix (absent : ¬needle <:+: text) : followers needle text = [] := by
  induction text with
  | nil =>
      have nonempty : needle ≠ [] := fun empty => absent (empty ▸ List.nil_infix)
      rw [followers, if_neg nonempty]
  | cons c rest ih =>
      have notFront : ∀ behind, c :: rest ≠ needle ++ behind := by
        intro behind front
        exact absent ⟨[], behind, front.symm⟩
      rw [followers_passed notFront]
      exact ih fun inside => absent (inside.trans (List.suffix_cons c rest).isInfix)

end Text

namespace Search

variable {search : Search}

theorem scan_over {left passed source : Text}
    (behind : Text.StandsBehind search.token passed.length (passed ++ source)) :
    search.scan left (passed ++ source) = search.scan (passed.reverse ++ left) source := by
  induction passed generalizing left with
  | nil => rfl
  | cons c others ih =>
      rw [List.cons_append] at behind ⊢
      rw [scan_passed behind.not_front, ih behind.tail]
      simp

theorem scan_of_not_infix {left source : Text} (absent : ¬search.token <:+: source) :
    search.scan left source = (left.reverse ++ source, 0) := by
  have passed : search.scan left (source ++ []) = search.scan (source.reverse ++ left) [] :=
    scan_over (Text.StandsBehind.of_not_infix (by simpa using absent))
  rw [List.append_nil, scan] at passed
  simpa using passed

/-- A token that is only found at one place, and taken there, is replaced there. -/
theorem apply_of_once {left right : Text}
    (first : Text.StandsBehind search.token left.length (left ++ (search.token ++ right)))
    (taken : search.takes left.reverse right = true) (absent : ¬search.token <:+: right) :
    search.apply (left ++ (search.token ++ right)) =
      ((search.rename.placeBehind search.style left.reverse).reverse ++ right, 1) := by
  rw [apply, scan_over first, List.append_nil, scan_taken taken, scan_of_not_infix absent]

end Search

theorem PatchTable.apply_of_absent {patches : PatchTable} {line : Text}
    (absent : ∀ patch ∈ patches, ¬patch.search <:+: line) : patches.apply line = (line, 0) := by
  induction patches with
  | nil => rfl
  | cons patch rest ih =>
      have notHere : ¬Text.occurs patch.search line = true :=
        fun occurs => absent patch (by simp) (Text.occurs_iff_isInfix.mp occurs)
      rw [apply, if_neg notHere, ih fun other member => absent other (by simp [member])]

end NameMigration
