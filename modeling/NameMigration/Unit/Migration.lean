import NameMigration.Substitution.Candidate
import NameMigration.Substitution.Nested
import NameMigration.Unit.Counts

/-!
The migration of one source unit: imports of the legacy namespace are dropped, and every other line
goes through the flat pass, the nested pass and the patches. A line that cannot be resolved stays as
it is, so nothing here fails.
-/

namespace NameMigration

structure Migration where
  mapping : Mapping
  rules : Rules

structure LineMigration where
  rules : Rules
  context : UnitContext
  candidates : List Candidate
  groups : List NestedGroup

namespace LineMigration

def apply (lineMigration : LineMigration) (line : Text) : Text × Counts :=
  if isImportLine line then (line, {})
  else
    let (flat, flatReplacements) :=
      applyCandidates lineMigration.candidates lineMigration.context lineMigration.rules line
    let (nested, nestedReplacements) :=
      NestedGroup.applyAll lineMigration.rules.style lineMigration.groups flat
    let (patched, patchesApplied) := lineMigration.rules.patches.apply nested
    (patched, { flatReplacements, nestedReplacements, patchesApplied })

def outcome (lineMigration : LineMigration) (line : Text) : List Text × Counts :=
  match withoutImportsFrom? lineMigration.rules.legacyNamespace line with
  | some (droppedImports, rest) => (if rest = [] then [] else [rest], { droppedImports })
  | none =>
      let (migrated, counts) := lineMigration.apply line
      ([migrated], if migrated = line then counts else { counts with changedLines := 1 })

end LineMigration

namespace Migration

def context (migration : Migration) (lines : List Text) : UnitContext :=
  UnitContext.ofLines migration.mapping migration.rules.legacyNamespace lines

def withContext (migration : Migration) (context : UnitContext) : LineMigration where
  rules := migration.rules
  context := context
  candidates := context.candidates
  groups := migration.mapping.nestedGroups migration.rules.style

def migrateLines (migration : Migration) (lines : List Text) : List Text × Counts :=
  let lineMigration := migration.withContext (migration.context lines)
  let outcomes := lines.map lineMigration.outcome
  (outcomes.flatMap Prod.fst, Counts.total (outcomes.map Prod.snd))

end Migration

end NameMigration
