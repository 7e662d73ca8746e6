import Mathlib.Data.List.Forall2
import NameMigration.Proofs.ImportReading
import NameMigration.Unit.Migration

/-!
What becomes of the import lines of a unit. A line keeps its statements from elsewhere and loses the
others. A line is left out when it had statements and lost them all, and the count of dropped imports
is that of the lost statements.
-/

namespace NameMigration

def importsFromElsewhere (space line : Text) : List ImportStatement :=
  (importsOn line).filter fun statement => !statement.isFrom space

def hasOnlyImportsFrom (space line : Text) : Bool :=
  importsOn line ≠ [] ∧ (importsOn line).all (·.isFrom space)

/-- What a line of a unit may become: an import line is kept as it is, left out, or written again with
the statements that it keeps; any other line becomes one line. -/
inductive AccountedAs (space line : Text) : List Text → Prop
  | unchanged (isLine : isImportLine line = true)
      (keptAll : importsFromElsewhere space line = importsOn line) : AccountedAs space line [line]
  | leftOut (isLine : isImportLine line = true) (hadSome : importsOn line ≠ [])
      (keptNone : importsFromElsewhere space line = []) : AccountedAs space line []
  | rewritten (isLine : isImportLine line = true)
      (lostSome : importsFromElsewhere space line ≠ importsOn line)
      (keptSome : importsFromElsewhere space line ≠ []) (rest : Text)
      (readAgain : importsOn rest = importsFromElsewhere space line)
      (nothingToDrop : withoutImportsFrom? space rest = none) : AccountedAs space line [rest]
  | body (noLine : isImportLine line = false) (migrated : Text) : AccountedAs space line [migrated]

variable {space line : Text}

theorem hasOnlyImportsFrom_iff : hasOnlyImportsFrom space line = true ↔
    importsOn line ≠ [] ∧ importsFromElsewhere space line = [] := by
  simp [hasOnlyImportsFrom, importsFromElsewhere]

theorem importsFromElsewhere_eq_iff : importsFromElsewhere space line = importsOn line ↔
    (importsOn line).filter (·.isFrom space) = [] := by
  simp [importsFromElsewhere]

theorem withoutImportsFrom?_eq_none_iff : withoutImportsFrom? space line = none ↔
    importsFromElsewhere space line = importsOn line := by
  rw [importsFromElsewhere_eq_iff]
  simp only [withoutImportsFrom?, List.partition_eq_filter_filter]
  split
  · rename_i empty
    simpa using empty
  · rename_i nonempty
    split <;> simpa using nonempty

def keptLine (space line : Text) : Text :=
  line.takeWhile Text.isBlank ++
    Text.joinWith [' '] ((importsFromElsewhere space line).map ImportStatement.text)

theorem withoutImportsFrom?_eq_some (lostSome : importsFromElsewhere space line ≠ importsOn line) :
    withoutImportsFrom? space line = some ((importsOn line).countP (·.isFrom space),
      if importsFromElsewhere space line = [] then [] else keptLine space line) := by
  rw [ne_eq, importsFromElsewhere_eq_iff] at lostSome
  have kept : (importsOn line).filter (not ∘ (·.isFrom space)) = importsFromElsewhere space line := rfl
  simp only [withoutImportsFrom?, List.partition_eq_filter_filter, kept, keptLine,
    ← List.countP_eq_length_filter, List.isEmpty_iff, if_neg lostSome]
  split <;> rfl

theorem importsOn_keptLine (keptSome : importsFromElsewhere space line ≠ []) :
    importsOn (keptLine space line) = importsFromElsewhere space line := by
  apply importsOn_joined keptSome
  · exact fun c member => List.mem_takeWhile_imp member
  · exact fun statement member => isProper_of_mem_importsOn (List.mem_filter.mp member |>.1)

theorem withoutImportsFrom?_keptLine (keptSome : importsFromElsewhere space line ≠ []) :
    withoutImportsFrom? space (keptLine space line) = none := by
  rw [withoutImportsFrom?_eq_none_iff]
  unfold importsFromElsewhere
  rw [importsOn_keptLine keptSome, importsFromElsewhere, List.filter_filter]
  simp

theorem keptLine_ne_nil (keptSome : importsFromElsewhere space line ≠ []) :
    keptLine space line ≠ [] := by
  intro absent
  have again := importsOn_keptLine keptSome
  rw [absent] at again
  exact keptSome again.symm

theorem importsOn_eq_nil (noLine : isImportLine line = false) : importsOn line = [] := by
  simp [importsOn, noLine]

namespace LineMigration

variable (lineMigration : LineMigration)

theorem apply_of_isImportLine (isLine : isImportLine line = true) :
    lineMigration.apply line = (line, {}) := by
  rw [apply, if_pos isLine]

theorem outcome_of_keptAll
    (keptAll : importsFromElsewhere lineMigration.rules.legacyNamespace line = importsOn line) :
    (lineMigration.outcome line).1 = [(lineMigration.apply line).1] := by
  rw [outcome, withoutImportsFrom?_eq_none_iff.mpr keptAll]

theorem outcome_of_lostSome
    (lostSome : importsFromElsewhere lineMigration.rules.legacyNamespace line ≠ importsOn line) :
    (lineMigration.outcome line).1 =
      if importsFromElsewhere lineMigration.rules.legacyNamespace line = [] then []
      else [keptLine lineMigration.rules.legacyNamespace line] := by
  rw [outcome, withoutImportsFrom?_eq_some lostSome]
  by_cases keptNone : importsFromElsewhere lineMigration.rules.legacyNamespace line = []
  · simp [keptNone]
  · simp [keptNone, keptLine_ne_nil keptNone]

theorem outcome_accountedAs (line : Text) : AccountedAs lineMigration.rules.legacyNamespace line
    (lineMigration.outcome line).1 := by
  cases isLine : isImportLine line with
  | false =>
      have noImports := importsOn_eq_nil isLine
      rw [outcome_of_keptAll lineMigration (by simp [importsFromElsewhere, noImports])]
      exact .body isLine _
  | true =>
      by_cases keptAll : importsFromElsewhere lineMigration.rules.legacyNamespace line = importsOn line
      · rw [outcome_of_keptAll lineMigration keptAll, apply_of_isImportLine lineMigration isLine]
        exact .unchanged isLine keptAll
      · rw [outcome_of_lostSome lineMigration keptAll]
        split
        · rename_i keptNone
          exact .leftOut isLine (fun absent => keptAll (keptNone.trans absent.symm)) keptNone
        · rename_i keptSome
          exact .rewritten isLine keptAll keptSome _ (importsOn_keptLine keptSome)
            (withoutImportsFrom?_keptLine keptSome)

theorem outcome_droppedImports (line : Text) : (lineMigration.outcome line).2.droppedImports =
    (importsOn line).countP (·.isFrom lineMigration.rules.legacyNamespace) := by
  by_cases keptAll : importsFromElsewhere lineMigration.rules.legacyNamespace line = importsOn line
  · have noneLost := importsFromElsewhere_eq_iff.mp keptAll
    have noneCounted : (lineMigration.apply line).2.droppedImports = 0 := by
      unfold apply
      split <;> rfl
    rw [List.countP_eq_length_filter, noneLost, outcome, withoutImportsFrom?_eq_none_iff.mpr keptAll]
    simp only
    split <;> simpa using noneCounted
  · rw [outcome, withoutImportsFrom?_eq_some keptAll]

end LineMigration

theorem AccountedAs.length_eq {output : List Text} (accounted : AccountedAs space line output) :
    output.length = if hasOnlyImportsFrom space line then 0 else 1 := by
  simp only [hasOnlyImportsFrom_iff]
  cases accounted with
  | unchanged isLine keptAll =>
      rw [if_neg]
      · rfl
      · rintro ⟨hadSome, keptNone⟩
        exact hadSome (keptAll.symm.trans keptNone)
  | leftOut isLine hadSome keptNone =>
      rw [if_pos ⟨hadSome, keptNone⟩]
      rfl
  | rewritten isLine lostSome keptSome rest readAgain nothingToDrop =>
      rw [if_neg fun leftOut => keptSome leftOut.2]
      rfl
  | body noLine migrated =>
      rw [if_neg fun leftOut => leftOut.1 (importsOn_eq_nil noLine)]
      rfl

theorem AccountedAs.keptAll_of_mem {output : List Text} {result : Text}
    (accounted : AccountedAs space line output) (isLine : isImportLine line = true)
    (member : result ∈ output) :
    isImportLine result = true ∧ importsFromElsewhere space result = importsOn result := by
  cases accounted with
  | unchanged _ keptAll => exact List.mem_singleton.mp member ▸ ⟨isLine, keptAll⟩
  | leftOut _ hadSome keptNone => exact absurd member (by simp)
  | rewritten _ lostSome keptSome rest readAgain nothingToDrop =>
      rw [List.mem_singleton.mp member]
      refine ⟨?_, withoutImportsFrom?_eq_none_iff.mp nothingToDrop⟩
      by_contra noLine
      rw [Bool.not_eq_true] at noLine
      exact keptSome (readAgain.symm.trans (importsOn_eq_nil noLine))
  | body noLine migrated =>
      rw [isLine] at noLine
      exact absurd noLine (by decide)

theorem length_flatten_of_accounted {lines : List Text} {outputs : List (List Text)}
    (accounted : List.Forall₂ (AccountedAs space) lines outputs) :
    outputs.flatten.length + lines.countP (hasOnlyImportsFrom space) = lines.length := by
  induction accounted with
  | nil => rfl
  | cons first _ ih =>
      rename_i line output lines outputs
      have here := first.length_eq
      rw [List.flatten_cons, List.length_append, List.countP_cons, List.length_cons]
      split at here <;> simp_all <;> omega

namespace LineMigration

variable (lineMigration : LineMigration) (lines : List Text)

theorem outcomes_accounted : List.Forall₂ (AccountedAs lineMigration.rules.legacyNamespace) lines
    (lines.map fun line => (lineMigration.outcome line).1) := by
  rw [List.forall₂_map_right_iff]
  exact List.forall₂_same.mpr fun line _ => lineMigration.outcome_accountedAs line

theorem outcomes_droppedImports :
    (Counts.total (lines.map fun line => (lineMigration.outcome line).2)).droppedImports =
      (lines.flatMap importsOn).countP (·.isFrom lineMigration.rules.legacyNamespace) := by
  have general : ∀ start : Counts,
      ((lines.map fun line => (lineMigration.outcome line).2).foldl Counts.add start).droppedImports =
        start.droppedImports +
          (lines.flatMap importsOn).countP (·.isFrom lineMigration.rules.legacyNamespace) := by
    induction lines with
    | nil => intro start; rfl
    | cons line rest ih =>
        intro start
        rw [List.map_cons, List.foldl_cons, ih, List.flatMap_cons, List.countP_append, ← Nat.add_assoc,
          ← outcome_droppedImports]
        rfl
  exact (general {}).trans (Nat.zero_add _)

end LineMigration

namespace Migration

theorem migrateLines_eq (migration : Migration) (lines : List Text) :
    let lineMigration := migration.withContext (migration.context lines)
    migration.migrateLines lines = ((lines.map fun line => (lineMigration.outcome line).1).flatten,
      Counts.total (lines.map fun line => (lineMigration.outcome line).2)) := by
  simp only [migrateLines, List.flatMap_def, List.map_map]
  rfl

/-- In a migrated unit every line is accounted for, in the order of the lines. As many lines are
missing as had only imports from the legacy namespace, and each such import is counted. -/
theorem migrateLines_accounted (migration : Migration) (lines : List Text) :
    ∃ outputs : List (List Text),
      List.Forall₂ (AccountedAs migration.rules.legacyNamespace) lines outputs ∧
      (migration.migrateLines lines).1 = outputs.flatten ∧
      (migration.migrateLines lines).1.length +
        lines.countP (hasOnlyImportsFrom migration.rules.legacyNamespace) = lines.length ∧
      (migration.migrateLines lines).2.droppedImports =
        (lines.flatMap importsOn).countP (·.isFrom migration.rules.legacyNamespace) := by
  let lineMigration := migration.withContext (migration.context lines)
  have accounted := lineMigration.outcomes_accounted lines
  rw [migrateLines_eq]
  exact ⟨_, accounted, rfl, length_flatten_of_accounted accounted,
    lineMigration.outcomes_droppedImports lines⟩

end Migration

end NameMigration
