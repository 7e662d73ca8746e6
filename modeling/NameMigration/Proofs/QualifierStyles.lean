import Mathlib
import NameMigration.Proofs.PassedText
import NameMigration.Proofs.UnitCandidates

/-!
The two qualifier styles, where no class goes to another package. They write the same text at every
place, so each step of a scan in one style is a step in the other, and the scans stay at the same
cursor. The patterns of the nested pass are the same as well, and with them the whole migration.
-/

namespace NameMigration

open Text (isAlphabetic)

def Rename.KeepsPackage (rename : Rename) : Prop :=
  rename.legacy.qualifier = rename.target.qualifier

instance (rename : Rename) : Decidable rename.KeepsPackage :=
  inferInstanceAs (Decidable (rename.legacy.qualifier = rename.target.qualifier))

def Rules.withStyle (rules : Rules) (style : QualifierStyle) : Rules :=
  { rules with style }

variable {rename : Rename} {candidate : Candidate} {context : UnitContext} {rules : Rules}
  {pattern : NestedPattern} {group : NestedGroup} {mapping : Mapping}
  {style other : QualifierStyle}

/-- The mapped style takes out the qualifier and puts the same one in again. -/
theorem Rename.KeepsPackage.placeBehind_mapped (kept : rename.KeepsPackage) (left : Text) :
    rename.placeBehind .mapped left = rename.placeBehind .legacy left := by
  have qualified : rename.target.qualified = rename.legacy.qualifier ++ rename.target.name := by
    rw [ClassName.qualified, ← kept]
  by_cases follows : followsQualifier rename.legacy.qualifier left = true
  · obtain ⟨more, rfl⟩ := List.isPrefixOf_iff_prefix.mp follows
    have dropped : (rename.legacy.qualifier.reverse ++ more).drop rename.legacy.qualifier.length =
        more := List.drop_left' List.length_reverse
    simp [Rename.placeBehind, follows, qualified, dropped]
  · simp [Rename.placeBehind, follows, qualified]

theorem Rename.KeepsPackage.placeBehind_eq (kept : rename.KeepsPackage)
    (style other : QualifierStyle) (left : Text) :
    rename.placeBehind style left = rename.placeBehind other left := by
  have same := kept.placeBehind_mapped left
  cases style <;> cases other <;> simp only [same]

namespace Search

variable {search : Search}

def withStyle (search : Search) (style : QualifierStyle) : Search :=
  { search with style }

/-- What is taken does not depend on the style, so a scan in one style is one in the other. -/
theorem Scans.withStyle (kept : search.rename.KeepsPackage) {left source result : Text} {count : Nat}
    (scans : search.Scans left source result count) :
    (search.withStyle other).Scans left source result count := by
  induction scans with
  | finished => exact Scans.finished
  | passed notFront _ ih => exact Scans.passed notFront ih
  | refused refused _ ih => exact Scans.refused refused ih
  | @taken left behind result count taken _ ih =>
      rw [kept.placeBehind_eq search.style other left] at ih
      exact Scans.taken taken ih

theorem apply_withStyle (kept : search.rename.KeepsPackage) (style : QualifierStyle) (line : Text) :
    (search.withStyle style).apply line = search.apply line :=
  ((search.scans_apply line).withStyle kept).eq_scan

end Search

/-! ### The flat pass -/

theorem applyCandidates_withStyle {candidates : List Candidate}
    (kept : ∀ candidate ∈ candidates, candidate.rename.KeepsPackage) (style other : QualifierStyle)
    (line : Text) :
    applyCandidates candidates context (rules.withStyle style) line =
      applyCandidates candidates context (rules.withStyle other) line := by
  refine inSequence_congr (fun candidate member line => ?_) line
  have same : ((candidate.search context (rules.withStyle other)).withStyle style).apply line =
      (candidate.search context (rules.withStyle other)).apply line :=
    Search.apply_withStyle (kept candidate member) style line
  exact same

/-! ### The nested pass -/

namespace NestedPattern

theorem ofRename?_style (kept : rename.KeepsPackage) (style other : QualifierStyle) :
    ofRename? style rename = ofRename? other rename := by
  have same : rename.legacy.qualifier = rename.target.qualifier := kept
  cases style <;> cases other <;> simp only [ofRename?, same]

theorem rename_of_ofRename? (made : ofRename? style rename = some pattern) :
    pattern.rename = rename := by
  unfold ofRename? at made
  split at made
  · rw [Option.some.injEq] at made
    rw [← made]
  · exact absurd made (by simp)

theorem applyAll_style {patterns : List NestedPattern}
    (kept : ∀ pattern ∈ patterns, pattern.rename.KeepsPackage) (style other : QualifierStyle)
    (line : Text) : applyAll style patterns line = applyAll other patterns line := by
  refine inSequence_congr (fun pattern member line => ?_) line
  have same : ((pattern.search other).withStyle style).apply line = (pattern.search other).apply line :=
    Search.apply_withStyle (kept pattern member) style line
  exact same

end NestedPattern

theorem NestedGroup.applyAll_style {groups : List NestedGroup}
    (kept : ∀ group ∈ groups, ∀ pattern ∈ group.patterns, pattern.rename.KeepsPackage)
    (style other : QualifierStyle) (line : Text) :
    applyAll style groups line = applyAll other groups line := by
  refine inSequence_congr (fun group member line => ?_) line
  simp only [apply, NestedPattern.applyAll_style (kept group member) style other line]

namespace Mapping

theorem nestedGroups_style (kept : ∀ rename ∈ mapping.renames, rename.KeepsPackage)
    (style other : QualifierStyle) : mapping.nestedGroups style = mapping.nestedGroups other := by
  have patterns : mapping.nested.filterMap (NestedPattern.ofRename? style) =
      mapping.nested.filterMap (NestedPattern.ofRename? other) := by
    apply List.filterMap_congr
    intro rename member
    exact NestedPattern.ofRename?_style (kept rename (List.mem_of_mem_filter member)) style other
  simp only [nestedGroups, patterns]

theorem keepsPackage_of_mem_nestedGroups (kept : ∀ rename ∈ mapping.renames, rename.KeepsPackage) :
    ∀ group ∈ mapping.nestedGroups style, ∀ pattern ∈ group.patterns,
      pattern.rename.KeepsPackage := by
  intro group inGroups pattern inGroup
  simp only [nestedGroups, List.mem_map] at inGroups
  obtain ⟨qualifier, _, rfl⟩ := inGroups
  obtain ⟨rename, inNested, made⟩ := List.mem_filterMap.mp (List.mem_of_mem_filter inGroup)
  rw [NestedPattern.rename_of_ofRename? made]
  exact kept rename (List.mem_of_mem_filter inNested)

end Mapping

/-! ### The migration -/

namespace Migration

variable {migration : Migration} {lines : List Text}

def withStyle (migration : Migration) (style : QualifierStyle) : Migration :=
  { migration with rules := migration.rules.withStyle style }

/-- The context of a unit does not depend on the style, and a line is migrated to the same lines
with the same counts. -/
theorem outcome_withStyle (kept : ∀ rename ∈ migration.mapping.renames, rename.KeepsPackage)
    (style other : QualifierStyle) (line : Text) :
    ((migration.withStyle style).withContext (migration.context lines)).outcome line =
      ((migration.withStyle other).withContext (migration.context lines)).outcome line := by
  have ofCandidates : ∀ candidate ∈ (migration.context lines).candidates,
      candidate.rename.KeepsPackage := fun candidate member =>
    kept candidate.rename (UnitContext.rename_mem_of_mem_candidates_ofLines member)
  have flat : applyCandidates (migration.context lines).candidates (migration.context lines)
        (migration.rules.withStyle style) line =
      applyCandidates (migration.context lines).candidates (migration.context lines)
        (migration.rules.withStyle other) line :=
    applyCandidates_withStyle ofCandidates style other line
  have groups := Mapping.nestedGroups_style kept style other
  have nested : NestedGroup.applyAll style (migration.mapping.nestedGroups other) =
      NestedGroup.applyAll other (migration.mapping.nestedGroups other) :=
    funext (NestedGroup.applyAll_style (Mapping.keepsPackage_of_mem_nestedGroups kept) style other)
  have applied : ((migration.withStyle style).withContext (migration.context lines)).apply line =
      ((migration.withStyle other).withContext (migration.context lines)).apply line := by
    simp only [LineMigration.apply, withContext, withStyle, flat]
    simp only [Rules.withStyle, groups, nested]
  simp only [LineMigration.outcome, applied]
  rfl

end Migration

/-- Both styles give the same lines and the same counts when no class goes to another package. -/
theorem migrateLines_legacy_eq_mapped (migration : Migration)
    (kept : ∀ rename ∈ migration.mapping.renames, rename.KeepsPackage) (lines : List Text) :
    (migration.withStyle .legacy).migrateLines lines =
      (migration.withStyle .mapped).migrateLines lines := by
  have sameOutcomes : lines.map ((migration.withStyle .legacy).withContext
        (migration.context lines)).outcome =
      lines.map ((migration.withStyle .mapped).withContext (migration.context lines)).outcome :=
    List.map_congr_left fun line _ => migration.outcome_withStyle kept .legacy .mapped line
  have sameContext (style : QualifierStyle) :
      (migration.withStyle style).context lines = migration.context lines := rfl
  simp only [Migration.migrateLines, sameContext, sameOutcomes]

def shelfMigration : Migration where
  mapping := .ofLines ["p/q/Shelf p/q/Rack".toList, "p/q/Shelf$Board p/q/Rack$Plank".toList]
  rules := ⟨"p".toList, ["p.lib".toList], .builtin, .legacy⟩

def shelfLines : List Text :=
  ["import p.q.Shelf;".toList, "new Shelf(p.q.Shelf.Board, p.lib.Shelf)".toList]

theorem migrateLines_shelf :
    (∀ rename ∈ shelfMigration.mapping.renames, rename.KeepsPackage) ∧
      (shelfMigration.withStyle .legacy).migrateLines shelfLines =
        (["new p.q.Rack(p.q.Rack.Plank, p.lib.Shelf)".toList],
          { flatReplacements := 2, nestedReplacements := 1, droppedImports := 1,
            changedLines := 1 }) ∧
      (shelfMigration.withStyle .mapped).migrateLines shelfLines =
        (["new p.q.Rack(p.q.Rack.Plank, p.lib.Shelf)".toList],
          { flatReplacements := 2, nestedReplacements := 1, droppedImports := 1,
            changedLines := 1 }) := by
  have kept : ∀ rename ∈ shelfMigration.mapping.renames, rename.KeepsPackage := by decide +kernel
  have inLegacy : (shelfMigration.withStyle .legacy).migrateLines shelfLines =
      (["new p.q.Rack(p.q.Rack.Plank, p.lib.Shelf)".toList],
        { flatReplacements := 2, nestedReplacements := 1, droppedImports := 1,
          changedLines := 1 }) := by cbv
  exact ⟨kept, inLegacy, (migrateLines_legacy_eq_mapped shelfMigration kept shelfLines) ▸ inLegacy⟩

end NameMigration
