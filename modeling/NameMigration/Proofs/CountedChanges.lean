import NameMigration.Proofs.QuietLines

/-!
What the counts of a migration say about its lines. Each pass counts at least one replacement when it
changes a line, so a line without a count is as it was, and no more lines change than are counted for. A
patch that is not found at first is not found later as long as no patch has been applied.
-/

namespace NameMigration

def Counts.replacements (counts : Counts) : Nat :=
  counts.flatReplacements + counts.nestedReplacements + counts.patchesApplied

theorem Counts.replacements_add (first second : Counts) :
    (first + second).replacements = first.replacements + second.replacements := by
  simp only [replacements, add_eq, add]
  omega

theorem PatchTable.apply_of_count_eq_zero {patches : PatchTable} {line : Text}
    (idle : (patches.apply line).2 = 0) : patches.apply line = (line, 0) :=
  apply_of_absent (apply_count_eq_zero_iff.mp idle)

namespace LineMigration

variable {lineMigration : LineMigration} {line : Text} {lines : List Text}

/-- A pass that counts nothing hands on the line that it got. -/
theorem apply_of_replacements_eq_zero (idle : (lineMigration.apply line).2.replacements = 0) :
    lineMigration.apply line = (line, {}) := by
  cases noImport : isImportLine line with
  | true => exact lineMigration.apply_of_isImportLine noImport
  | false =>
      rw [apply_of_noImport noImport] at idle ⊢
      simp only [Counts.replacements, Nat.add_eq_zero_iff] at idle
      obtain ⟨⟨flatIdle, nestedIdle⟩, patchesIdle⟩ := idle
      have flat : applyCandidates lineMigration.candidates lineMigration.context lineMigration.rules
          line = (line, 0) :=
        inSequence_of_count_eq_zero (fun _ _ => Candidate.apply_of_count_eq_zero) flatIdle
      rw [flat] at nestedIdle patchesIdle
      have nested : NestedGroup.applyAll lineMigration.rules.style lineMigration.groups line =
          (line, 0) :=
        inSequence_of_count_eq_zero (fun _ _ => NestedGroup.apply_of_count_eq_zero) nestedIdle
      rw [nested] at patchesIdle
      have patched := PatchTable.apply_of_count_eq_zero patchesIdle
      rw [flat, nested, patched]

theorem changedLines_apply (lineMigration : LineMigration) (line : Text) :
    (lineMigration.apply line).2.changedLines = 0 := by
  rw [apply]
  split <;> rfl

/-- A line that changes has a replacement to show for it. -/
theorem changedLines_outcome_le (lineMigration : LineMigration) (line : Text) :
    (lineMigration.outcome line).2.changedLines ≤ (lineMigration.outcome line).2.replacements := by
  unfold outcome
  split
  · exact Nat.zero_le _
  · simp only
    split
    · rw [changedLines_apply]
      exact Nat.zero_le _
    · rename_i changed
      by_contra fewer
      have idle : (lineMigration.apply line).2.replacements = 0 := Nat.lt_one_iff.mp (not_le.mp fewer)
      exact changed (congrArg Prod.fst (apply_of_replacements_eq_zero idle))

theorem changedLines_migrateAll_le (lineMigration : LineMigration) (lines : List Text) :
    (lineMigration.migrateAll lines).2.changedLines ≤
      (lineMigration.migrateAll lines).2.replacements := by
  induction lines with
  | nil => exact Nat.le_refl _
  | cons line rest ih =>
      have first := lineMigration.changedLines_outcome_le line
      rw [migrateAll_cons, Counts.replacements_add]
      exact Nat.add_le_add first ih

theorem outcome_of_replacements_eq_zero (noImport : isImportLine line = false)
    (idle : (lineMigration.apply line).2.replacements = 0) :
    lineMigration.outcome line = ([line], {}) := by
  refine outcome_of_apply_eq_self ?_ (apply_of_replacements_eq_zero idle)
  simp [importsFromElsewhere, importsOn_eq_nil noImport]

theorem migrateAll_around_unchanged (unchanged : lineMigration.outcome line = ([line], {}))
    (before after : List Text) :
    lineMigration.migrateAll (before ++ line :: after) =
      ((lineMigration.migrateAll before).1 ++ line :: (lineMigration.migrateAll after).1,
        (lineMigration.migrateAll before).2 + (lineMigration.migrateAll after).2) := by
  rw [migrateAll_append, migrateAll_cons, unchanged, Counts.zero_add]
  rfl

end LineMigration

/-- A line without an import for which none of the passes counts anything stays at its place as it is and
adds to no count. No more lines change than the passes count, and a patch table counts nothing exactly on
the lines that have none of its searched texts at first. -/
theorem migrateLines_counts_sound (migration : Migration) (lines : List Text) :
    let lineMigration := migration.withContext (migration.context lines)
    (∀ before line after, lines = before ++ line :: after → isImportLine line = false →
      (lineMigration.apply line).2.flatReplacements = 0 →
      (lineMigration.apply line).2.nestedReplacements = 0 →
      (lineMigration.apply line).2.patchesApplied = 0 →
        lineMigration.outcome line = ([line], {}) ∧
          migration.migrateLines lines =
            ((lineMigration.migrateAll before).1 ++ line :: (lineMigration.migrateAll after).1,
              (lineMigration.migrateAll before).2 + (lineMigration.migrateAll after).2)) ∧
      (migration.migrateLines lines).2.changedLines ≤
        (migration.migrateLines lines).2.flatReplacements +
          (migration.migrateLines lines).2.nestedReplacements +
          (migration.migrateLines lines).2.patchesApplied ∧
      ∀ (patches : PatchTable) (line : Text),
        (patches.apply line).2 = 0 ↔ ∀ patch ∈ patches, ¬patch.search <:+: line := by
  intro lineMigration
  refine ⟨?_, ?_, fun patches line => PatchTable.apply_count_eq_zero_iff⟩
  · intro before line after split noImport flatIdle nestedIdle patchesIdle
    have idle : (lineMigration.apply line).2.replacements = 0 := by
      rw [Counts.replacements, flatIdle, nestedIdle, patchesIdle]
    have unchanged := LineMigration.outcome_of_replacements_eq_zero noImport idle
    have whole : migration.migrateLines lines = lineMigration.migrateAll (before ++ line :: after) :=
      split ▸ migration.migrateLines_eq_migrateAll lines
    exact ⟨unchanged, whole.trans (LineMigration.migrateAll_around_unchanged unchanged before after)⟩
  · rw [migration.migrateLines_eq_migrateAll]
    exact lineMigration.changedLines_migrateAll_le lines

theorem migrateLines_counts_sound_sawLines :
    isImportLine "saw.cut(); // p.q.Blades".toList = false ∧
      ((sawMigration.withContext (sawMigration.context sawLines)).apply
        "saw.cut(); // p.q.Blades".toList).2 = {} ∧
      sawMigration.migrateLines sawLines =
        (["saw.cut(); // p.q.Blades".toList, "new p.q.Blade.Point(p.q.Blade.class)".toList],
          { flatReplacements := 2, nestedReplacements := 1, droppedImports := 1, changedLines := 1 }) := by
  have noImport : isImportLine "saw.cut(); // p.q.Blades".toList = false := by decide +kernel
  have idle : ((sawMigration.withContext (sawMigration.context sawLines)).apply
      "saw.cut(); // p.q.Blades".toList).2 = {} := by cbv
  have around := ((migrateLines_counts_sound sawMigration sawLines).1
    ["import p.q.Saw;".toList] "saw.cut(); // p.q.Blades".toList ["new Saw.Tooth(Saw.class)".toList]
    rfl noImport (by rw [idle]) (by rw [idle]) (by rw [idle])).2
  have first : (sawMigration.withContext (sawMigration.context sawLines)).migrateAll
      ["import p.q.Saw;".toList] = ([], { droppedImports := 1 }) := by cbv
  have last : (sawMigration.withContext (sawMigration.context sawLines)).migrateAll
      ["new Saw.Tooth(Saw.class)".toList] = (["new p.q.Blade.Point(p.q.Blade.class)".toList],
        { flatReplacements := 2, nestedReplacements := 1, changedLines := 1 }) := by cbv
  rw [first, last] at around
  exact ⟨noImport, idle, around⟩

end NameMigration
