/-!
What a migration counts.
-/

namespace NameMigration

structure Counts where
  flatReplacements : Nat := 0
  nestedReplacements : Nat := 0
  patchesApplied : Nat := 0
  droppedImports : Nat := 0
  changedLines : Nat := 0
  deriving DecidableEq, Repr

namespace Counts

def add (first second : Counts) : Counts where
  flatReplacements := first.flatReplacements + second.flatReplacements
  nestedReplacements := first.nestedReplacements + second.nestedReplacements
  patchesApplied := first.patchesApplied + second.patchesApplied
  droppedImports := first.droppedImports + second.droppedImports
  changedLines := first.changedLines + second.changedLines

instance : Add Counts := ⟨add⟩

def total (counts : List Counts) : Counts :=
  counts.foldl add {}

theorem add_eq (first second : Counts) : first + second = first.add second := rfl

theorem zero_add (counts : Counts) : {} + counts = counts := by
  simp only [add_eq, add, Nat.zero_add]

theorem add_zero (counts : Counts) : counts + {} = counts := rfl

theorem add_assoc (first second third : Counts) :
    first + second + third = first + (second + third) := by
  simp only [add_eq, add, Nat.add_assoc]

theorem add_comm (first second : Counts) : first + second = second + first := by
  simp only [add_eq, add, Nat.add_comm]

theorem foldl_add (counts : List Counts) (start : Counts) :
    counts.foldl add start = start + total counts := by
  induction counts generalizing start with
  | nil => rfl
  | cons first rest ih =>
      rw [total, List.foldl_cons, List.foldl_cons, ih, ih, ← add_eq, ← add_eq, zero_add, add_assoc]

theorem total_cons (first : Counts) (rest : List Counts) :
    total (first :: rest) = first + total rest := by
  rw [total, List.foldl_cons, foldl_add, ← add_eq, zero_add]

theorem total_append (first second : List Counts) :
    total (first ++ second) = total first + total second := by
  rw [total, List.foldl_append, foldl_add]
  rfl

end Counts

end NameMigration
