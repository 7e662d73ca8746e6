import Mathlib
import NameMigration.Proofs.RunStages

/-!
A run mirrors the source files: each is written, with its lines migrated, at its own place below the output
root, and nothing else changes but for directories on the way there. What was read is from before the first
file was written, so this also holds when one of the two roots is inside the other.
-/

namespace NameMigration

open FileTree (GainsFiles)

variable {settings : Settings} {options : RunOptions} {migration : Migration} {files : List FileInside}
  {before after : FileTree} {summary : Summary}

def Migration.fileContent (migration : Migration) (content : Bytes) : Bytes :=
  (Text.ofLines (migration.migrateLines (Utf8.decodeLossy content).lines).1).utf8

def GainsMigrated (settings : Settings) (migration : Migration) (files : List FileInside)
    (before after : FileTree) : Prop :=
  GainsFiles
    (fun location => ∃ file ∈ files, Location.IsOnWay (settings.outputDir.start before.home)
      (settings.outputDir.names ++ file.names) location)
    (files.map fun file =>
      (before.place settings.outputDir ++ file.names, migration.fileContent file.content))
    before after

theorem writeUnits_cons {unit : MigratedUnit} {rest : List MigratedUnit}
    (written : writeUnits settings (unit :: rest) before = .ok () after) :
    ∃ between, writeUnit settings unit before = .ok () between ∧
      writeUnits settings rest between = .ok () after := by
  obtain ⟨_, between, first, others⟩ := FileAction.bind_eq_ok_iff.mp written
  exact ⟨between, first, others⟩

theorem writeUnits_singleton (unit : MigratedUnit) : writeUnits settings [unit] = writeUnit settings unit := by
  funext tree
  have inOrder : writeUnits settings [unit] = writeUnit settings unit >>= fun _ => pure () := rfl
  rw [inOrder]
  simp only [bind, EStateM.bind]
  cases writeUnit settings unit tree <;> rfl

theorem writeMigrated_gains {file : FileInside} (noLinks : before.HasNoLinks)
    (faultless : settings.sourceDir.fault? = none) (areNames : ∀ name ∈ file.names, IsFileName name)
    (written : writeUnit settings (file.migrated settings.sourceDir migration) before = .ok () after) :
    GainsFiles
      (Location.IsOnWay (settings.outputDir.start before.home) (settings.outputDir.names ++ file.names))
      [(before.place settings.outputDir ++ file.names, migration.fileContent file.content)] before after := by
  have goesOn := (Path.goesOn_foldl_join (Path.ne_nil_of_fault? faultless) areNames).1
  exact writeUnit_gains noLinks faultless goesOn areNames written

theorem writeUnits_gains (noLinks : before.HasNoLinks) (faultless : settings.sourceDir.fault? = none)
    (areNames : ∀ file ∈ files, ∀ name ∈ file.names, IsFileName name)
    (apart : (files.map FileInside.names).Nodup)
    (written : writeUnits settings (files.map (FileInside.migrated settings.sourceDir migration)) before =
      .ok () after) :
    GainsMigrated settings migration files before after := by
  -- The tree before varies: the later files are written into the one that the first of them left.
  induction files generalizing before with
  | nil =>
      cases written
      exact GainsFiles.refl _ _
  | cons file rest ih =>
      obtain ⟨between, first, others⟩ := writeUnits_cons written
      have gainsFirst := writeMigrated_gains noLinks faultless (areNames file (by simp)) first
      rw [List.map_cons, List.nodup_cons] at apart
      have gainsRest := ih (gainsFirst.hasNoLinks noLinks)
        (fun other member => areNames other (List.mem_cons_of_mem file member)) apart.2 others
      rw [GainsMigrated, gainsFirst.sameHome, gainsFirst.place_eq] at gainsRest
      refine GainsFiles.append (gainsFirst.mono ?_) (gainsRest.mono ?_) ?_
      · intro location onWay
        exact ⟨file, List.mem_cons_self, onWay⟩
      · rintro location ⟨other, member, onWay⟩
        exact ⟨other, List.mem_cons_of_mem file member, onWay⟩
      · intro earlier isFirst later isLater same
        obtain rfl := List.mem_singleton.mp isFirst
        obtain ⟨other, member, rfl⟩ := List.mem_map.mp isLater
        exact apart.1 (List.mem_map.mpr ⟨other, member, List.append_cancel_left same⟩)

theorem not_written_root {tree : FileTree} {units : List MigratedUnit}
    (noLinks : before.HasNoLinks) (home : before.HasHome) (faultless : settings.sourceDir.fault? = none)
    (migrated : migration.migrateFiles tree [settings.sourceDir] = .ok units) :
    writeUnits settings units before ≠ .ok () after := by
  intro written
  obtain ⟨unit, rest, ⟨content, -, rfl⟩, -, rfl⟩ :=
    List.forall₂_cons_left_iff.mp (migrateFiles_ok migrated)
  obtain ⟨between, first, -⟩ := writeUnits_cons written
  exact writeUnit_root noLinks home faultless rfl first

/-- How a run ends that has read the source files below the source root and then written them below the
output root. -/
structure Mirrors (settings : Settings) (before after : FileTree) (summary : Summary) (mapping : Mapping)
    (sources : List FileInside) : Prop where
  loads : Mapping.load before settings.mapping = .ok mapping
  complete : ∀ file : FileInside, file ∈ sources ↔
    before.get? (before.place settings.sourceDir ++ file.names) = some (.file file.content) ∧
      ∃ name, file.names.getLast? = some name ∧ settings.isSourceFile name = true
  apart : (sources.map fun file => before.place settings.outputDir ++ file.names).Nodup
  sameHome : after.home = before.home
  written : ∀ file ∈ sources, after.get? (before.place settings.outputDir ++ file.names) =
    some (.file (Migration.fileContent ⟨mapping, settings.rules⟩ file.content))
  others : ∀ location, (∀ file ∈ sources, before.place settings.outputDir ++ file.names ≠ location) →
    after.get? location = before.get? location ∨
      before.get? location = none ∧ after.get? location = some .directory ∧
        ∃ file ∈ sources, Location.IsOnWay (settings.outputDir.start before.home)
          (settings.outputDir.names ++ file.names) location
  units : summary.units = sources.length
  filesWritten : summary.filesWritten = sources.length
  counts : summary.counts = Counts.total (sources.map fun file =>
    (Migration.migrateLines ⟨mapping, settings.rules⟩ (Utf8.decodeLossy file.content).lines).2)

/-- A run that succeeds has written every source file, and none but these, with its lines migrated where
it stands below the output root, and has changed nothing else but for directories on the way there. Its
summary counts what was written. -/
theorem run_mirrors (noLinks : before.HasNoLinks) (wellFormed : before.IsWellFormed)
    (unfetched : options.fetch = false) (unprepared : options.prepare = false)
    (writes : options.dryRun = false) (ran : run settings options before = .ok summary after) :
    ∃ mapping sources, Mirrors settings before after summary mapping sources := by
  obtain ⟨-, plan, made, written, rfl⟩ := run_ok unfetched unprepared writes ran
  obtain ⟨loaded, paths, collected, migrated⟩ := Plan.make_ok made
  obtain ⟨faultless, isInside | ⟨rfl, -⟩⟩ := FileTree.sourceFiles_ok noLinks wellFormed collected
  · have areFiles : ∀ file ∈ before.sourcesIn settings (before.place settings.sourceDir),
        file ∈ before.filesIn (before.place settings.sourceDir) :=
      fun file member => (List.mem_filter.mp member).1
    have areNames := fun file member => wellFormed.isFileName (areFiles file member)
    have distinct :
        ((before.sourcesIn settings (before.place settings.sourceDir)).map FileInside.names).Nodup :=
      (List.filter_sublist.map _).nodup (before.filesIn_nodup _)
    subst isInside
    have isUnits := units_eq noLinks wellFormed faultless areFiles migrated
    rw [isUnits] at written
    have gains := writeUnits_gains noLinks faultless areNames distinct written
    refine ⟨plan.mapping, before.sourcesIn settings (before.place settings.sourceDir), ?_⟩
    constructor
    · exact loaded
    · intro file
      exact FileTree.mem_sourcesIn_iff
    · have apart := distinct.map (List.append_right_injective (before.place settings.outputDir))
      rwa [List.map_map] at apart
    · exact gains.sameHome
    · intro file member
      exact gains.holds _ (List.mem_map_of_mem member)
    · intro location isOther
      exact gains.others location (by simpa using isOther)
    · simp [Plan.summary, isUnits]
    · simp [Plan.summary, isUnits, writes]
    · simp only [Plan.summary, isUnits, List.map_map]
      rfl
  · -- The only unit is the source root itself.
    exact absurd written (not_written_root noLinks wellFormed.hasHome faultless migrated)

def workshop : FileTree where
  entries := [
    (["work"].map String.toList, .directory),
    (["work", "names"].map String.toList, .file (Text.utf8 "p/q/Door p/q/Gate\n".toList)),
    (["work", "old"].map String.toList, .directory),
    (["work", "old", "Inn.java"].map String.toList,
      .file (Text.utf8 "import p.q.Door;\nDoor door;".toList)),
    (["work", "old", "cellar"].map String.toList, .directory),
    (["work", "old", "cellar", "Key.java"].map String.toList, .file (Text.utf8 "Key key;\n".toList)),
    (["work", "old", "cellar", "Key.txt"].map String.toList, .file (Text.utf8 "Door".toList))]
  home := ["work".toList]
  ordered := by decide

def workshopSettings : Settings :=
  { Settings.default with
    sourceDir := "/work/old".toList
    outputDir := "../new/./tree".toList
    mapping := "names".toList
    legacyNamespace := "p".toList }

theorem run_mirrors_workshop :
    workshop.HasNoLinks ∧ workshop.IsWellFormed ∧
      ∃ summary after, run workshopSettings {} workshop = .ok summary after ∧
        after.get? (["new", "tree", "Inn.java"].map String.toList) =
          some (.file (Text.utf8 "p.q.Gate door;\n".toList)) ∧
        ∃ mapping sources, Mirrors workshopSettings workshop after summary mapping sources := by
  have noLinks : workshop.HasNoLinks := .of_entries (by simp [workshop])
  have wellFormed : workshop.IsWellFormed := .of_entries (by decide) (by decide) (by decide)
  have succeeds : ((FileAction.success? (run workshopSettings {}) workshop).bind fun result =>
      result.2.get? (["new", "tree", "Inn.java"].map String.toList)) =
        some (.file (Text.utf8 "p.q.Gate door;\n".toList)) := by cbv
  obtain ⟨⟨summary, after⟩, isSuccess, isWritten⟩ := Option.bind_eq_some_iff.mp succeeds
  have ran := FileAction.success?_eq_some_iff.mp isSuccess
  exact ⟨noLinks, wellFormed, summary, after, ran, isWritten,
    run_mirrors noLinks wellFormed rfl rfl rfl ran⟩

end NameMigration
