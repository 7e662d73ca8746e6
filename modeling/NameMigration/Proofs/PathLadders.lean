import NameMigration.Proofs.PathParts

/-!
The directories around what a path leads to, one inside the other. A path that ends with a name has a
parent that leads to where the name stands, and so on until the directory that the path begins in.
-/

namespace NameMigration

namespace Path

open Parts (isSilent toPath)

variable {path parent : Path} {front others : List Text} {last : Text} {around : List Path}

structure EndsIn (path : Path) (front : List Text) (last : Text) : Prop where
  faultless : path.fault? = none
  inOrder : path.splitOn '/' = front ++ [last]
  speaks : isSilent last = false

namespace EndsIn

theorem ne_nil (ends : path.EndsIn front last) : last ≠ [] := by
  rintro rfl
  exact absurd ends.speaks (by decide)

theorem dropLast_names (ends : path.EndsIn front last) :
    path.names.dropLast = front.filter (!isSilent ·) := by
  rw [names, ends.inOrder, List.filter_append]
  simp [ends.speaks]

theorem names_eq (ends : path.EndsIn front last) : path.names = path.names.dropLast ++ [last] := by
  rw [ends.dropLast_names, names, ends.inOrder, List.filter_append]
  simp [ends.speaks]

theorem getLast?_ne (ends : path.EndsIn front last) : path.getLast? ≠ some '/' := by
  intro slashed
  obtain ⟨shown, rfl⟩ := eq_concat_slash slashed
  have inOrder := ends.inOrder
  rw [List.splitOn_append_cons_self, List.splitOn_nil] at inOrder
  exact ends.ne_nil (List.singleton_inj.mp (List.append_inj' inOrder rfl).2).symm

theorem front_last_eq (ends : path.EndsIn front last) :
    path.front = front.filter (· ≠ []) ∧ path.last = last := by
  have spoken : path.steps.filter (· ≠ []) = front.filter (· ≠ []) ++ [last] := by
    rw [steps, if_neg ends.getLast?_ne, ends.inOrder, List.append_nil, List.filter_filter,
      List.filter_append]
    simp [ends.ne_nil]
  rw [Path.front, Path.last, spoken]
  simp

theorem steps_eq (ends : path.EndsIn front last) : path.steps = path.front ++ [path.last] := by
  rw [ends.front_last_eq.1, ends.front_last_eq.2, steps, if_neg ends.getLast?_ne, ends.inOrder,
    List.filter_append]
  simp [ends.ne_nil]

theorem filter_front (ends : path.EndsIn front last) :
    path.front.filter (!isSilent ·) = path.names.dropLast := by
  rw [ends.front_last_eq.1, filter_nonempty, ends.dropLast_names]

end EndsIn

/-! ### Fronts of a path -/

theorem joinWith_front {pieces kept : List Text} (separator : Text) (isFront : kept <+: pieces) :
    Text.joinWith separator kept <+: Text.joinWith separator pieces := by
  obtain ⟨behind, rfl⟩ := isFront
  cases kept with
  | nil => exact List.nil_prefix
  | cons first rest =>
      rw [List.cons_append, Text.joinWith_cons, Text.joinWith_cons, List.flatMap_append, ← List.append_assoc]
      exact List.prefix_append _ _

theorem toPath_ofPath (path : Path) : toPath (Parts.ofPath path) = path := by
  have joined (shown : Path) : Text.joinWith ['/'] (shown.splitOn '/') = shown :=
    List.intercalate_splitOn '/'
  unfold Parts.ofPath toPath
  split
  · simp [joined]
  · rfl
  · rename_i rest
    obtain ⟨first, others, parts⟩ := List.exists_cons_of_ne_nil (List.splitOn_ne_nil '/' rest)
    have shown := joined rest
    rw [parts] at shown
    rw [parts, Text.joinWith, List.intercalate_cons_cons, ← Text.joinWith, shown]
    rfl
  · simp [joined]

theorem fault?_of_front (isFront : parent <+: path) (nonempty : parent ≠ [])
    (faultless : path.fault? = none) : parent.fault? = none := by
  obtain ⟨behind, rfl⟩ := isFront
  unfold fault? at faultless ⊢
  split at faultless
  · simp at faultless
  · rename_i noNull
    split at faultless
    · simp at faultless
    · split at faultless
      · simp at faultless
      · rename_i short
        have shortFront : ¬4096 ≤ parent.utf8Length := by
          rw [Text.utf8Length_append] at short
          omega
        simp only [List.contains_eq_mem, List.mem_append, decide_eq_true_eq, not_or] at noNull
        simp [noNull.1, nonempty, shortFront]

/-- The first pieces of a path, up to a name, make a path that ends in that name. -/
theorem endsIn_toPath (faultless : path.fault? = none)
    (isFront : front ++ [last] <+: (Parts.ofPath path).pieces) (speaks : isSilent last = false) :
    ∃ shown, (toPath ⟨(Parts.ofPath path).lead, front ++ [last]⟩).EndsIn shown last ∧
      shown.filter (!isSilent ·) = front.filter (!isSilent ·) := by
  have isStart : toPath ⟨(Parts.ofPath path).lead, front ++ [last]⟩ <+: path := by
    conv_rhs => rw [← toPath_ofPath path]
    exact List.prefix_append_right_inj _ |>.mpr (joinWith_front _ isFront)
  have someLast : last ≠ [] := by
    rintro rfl
    exact absurd speaks (by decide)
  suffices parts : ∃ shown, (toPath ⟨(Parts.ofPath path).lead, front ++ [last]⟩).splitOn '/' =
      shown ++ [last] ∧ shown.filter (!isSilent ·) = front.filter (!isSilent ·) by
    obtain ⟨shown, parts, sameNames⟩ := parts
    refine ⟨shown, ⟨fault?_of_front isStart ?_ faultless, parts, speaks⟩, sameNames⟩
    intro isEmpty
    rw [isEmpty, List.splitOn_nil] at parts
    exact someLast (by simpa using congrArg List.getLast? parts.symm)
  rw [ofPath_eq path] at isFront ⊢
  cases isAbsolute : path.isAbsolute with
  | true =>
      obtain ⟨rest, pathParts⟩ := exists_of_isAbsolute isAbsolute
      simp only [isAbsolute, if_true, pathParts, List.tail_cons] at isFront ⊢
      have isWhole : [] :: (front ++ [last]) <+: path.splitOn '/' := by simpa [pathParts] using isFront
      refine ⟨[] :: front, ?_, by simp [isSilent]⟩
      rw [toPath_slash (by simp)]
      exact splitOn_toPath_nil isWhole (by simp)
  | false =>
      simp only [isAbsolute, Bool.false_eq_true, if_false] at isFront ⊢
      split
      · rename_i dotFirst
        rw [if_pos dotFirst] at isFront
        obtain ⟨others, pathParts⟩ := List.head?_eq_some_iff.mp dotFirst
        cases front with
        | nil => exact absurd (List.cons_prefix_cons.mp isFront).1 someLast
        | cons first rest =>
            obtain ⟨rfl, isRest⟩ := List.cons_prefix_cons.mp isFront
            have isWhole : ['.'] :: (rest ++ [last]) <+: path.splitOn '/' := by
              simpa [pathParts] using isRest
            refine ⟨['.'] :: rest, ?_, by simp [isSilent]⟩
            rw [List.cons_append, toPath_dot]
            exact splitOn_toPath_nil isWhole (by simp)
      · rename_i notDot
        rw [if_neg notDot] at isFront
        exact ⟨front, splitOn_toPath_nil isFront (by simp), rfl⟩

theorem EndsIn.pieces_eq (ends : path.EndsIn front last) :
    ∃ shown, (Parts.ofPath path).pieces = shown ++ [last] := by
  rw [ofPath_eq path, ends.inOrder]
  cases isAbsolute : path.isAbsolute with
  | true =>
      obtain ⟨rest, emptyFirst⟩ := exists_of_isAbsolute isAbsolute
      rw [ends.inOrder] at emptyFirst
      cases front with
      | nil => exact absurd (List.cons_eq_cons.mp emptyFirst).1 ends.ne_nil
      | cons first others => exact ⟨others, rfl⟩
  | false =>
      simp only [Bool.false_eq_true, if_false]
      split
      · rename_i dotFirst
        cases front with
        | nil =>
            have isDot : last = ['.'] := by simpa using dotFirst
            exact absurd ends.speaks (by simp [isDot, isSilent])
        | cons first rest => exact ⟨[] :: rest, rfl⟩
      · exact ⟨front, rfl⟩

/-! ### Ladders -/

/-- Whether each of the paths, the nearest first, leads to where the path in front of it ends. -/
inductive IsLadder : (path : Path) → (around : List Path) → Prop
  | nowhere (around : List Path) : IsLadder [] around
  | here (around : List Path) : IsLadder ['.'] around
  | root (around : List Path) : IsLadder ['/'] around
  | step {path parent : Path} {front : List Text} {last : Text} {others : List Path}
      (ends : path.EndsIn front last) (sameStart : parent.isAbsolute = path.isAbsolute)
      (leads : parent.names = path.names.dropLast) (ladder : IsLadder parent others) :
      IsLadder path (parent :: others)

theorem isLadder_outer (faultless : path.fault? = none)
    (isFront : others.reverse <+: (Parts.ofPath path).pieces) :
    IsLadder (toPath ⟨(Parts.ofPath path).lead, (others.dropWhile isSilent).reverse⟩)
      (Parts.outer (Parts.ofPath path).lead others) := by
  induction others with
  | nil =>
      rw [ofPath_eq path]
      split
      · exact .root _
      · split
        · exact .here _
        · exact .nowhere _
  | cons piece others ih =>
      rw [List.reverse_cons] at isFront
      have isOuter := (List.prefix_append others.reverse [piece]).trans isFront
      rw [Parts.outer]
      cases silent : isSilent piece with
      | true => simpa [silent] using ih isOuter
      | false =>
          obtain ⟨shown, ends, sameNames⟩ := endsIn_toPath faultless isFront silent
          have someNames : path.names ≠ [] := by
            rw [← filter_pieces_ofPath path]
            have kept := isFront.filter (!isSilent ·)
            rw [List.filter_append] at kept
            exact kept.ne_nil (by simp [silent])
          have isInner : (others.dropWhile isSilent).reverse <+: (Parts.ofPath path).pieces :=
            (List.reverse_prefix.mpr (List.dropWhile_suffix isSilent)).trans isOuter
          obtain ⟨parentStart, names⟩ := toPath_front isInner someNames
          have sameStart := parentStart.trans (toPath_front isFront someNames).1.symm
          rw [List.filter_reverse, filter_dropWhile, ← List.filter_reverse, ← sameNames,
            ← ends.dropLast_names] at names
          rw [List.dropWhile_cons_of_neg (by simp [silent]), List.reverse_cons, if_neg (by simp)]
          exact .step ends sameStart names (ih isOuter)

theorem EndsIn.isLadder_ancestors (ends : path.EndsIn front last) : IsLadder path path.ancestors := by
  obtain ⟨shown, pieces⟩ := ends.pieces_eq
  have isWhole : (Parts.ofPath path).pieces.reverse.reverse <+: (Parts.ofPath path).pieces := by simp
  have ladder := isLadder_outer ends.faultless isWhole
  have trimmed : ((Parts.ofPath path).pieces.reverse.dropWhile isSilent).reverse =
      (Parts.ofPath path).pieces := by
    simp [pieces, ends.speaks]
  rwa [trimmed, toPath_ofPath] at ladder

theorem IsLadder.isLadder_ancestors (ladder : IsLadder path around) : IsLadder path path.ancestors := by
  cases ladder with
  | nowhere => exact .nowhere _
  | here => exact .here _
  | root => exact .root _
  | step ends => exact ends.isLadder_ancestors

/-- The parent of a path leads to where its last name stands. -/
theorem EndsIn.exists_parent (ends : path.EndsIn front last) : ∃ parent, path.parent? = some parent ∧
    parent.isAbsolute = path.isAbsolute ∧ parent.names = path.names.dropLast ∧
      IsLadder parent parent.ancestors := by
  have ladder := ends.isLadder_ancestors
  generalize isAround : path.ancestors = around at ladder
  cases ladder with
  | nowhere => exact absurd ends.faultless (by decide)
  | here =>
      have parts : [['.']] = front ++ [last] := ends.inOrder
      obtain rfl : ['.'] = last := by simpa using congrArg List.getLast? parts
      exact absurd ends.speaks (by decide)
  | root => exact absurd rfl ends.getLast?_ne
  | step _ sameStart leads ladder =>
      exact ⟨_, by rw [Path.parent?, isAround]; rfl, sameStart, leads, ladder.isLadder_ancestors⟩

end Path

end NameMigration
