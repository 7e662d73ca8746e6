import NameMigration.Proofs.EarlyFaults
import NameMigration.Proofs.MirroredRun

/-!
What a run does to the files that it reads. It only ever writes below the output root, so it keeps the
source files if it puts none in the place of another: that is so when neither root is inside the other,
and only then for every tree. Two spellings of one directory are told apart by the settings' check.
-/

namespace NameMigration

open FileTree (GainsFiles)

variable {settings : Settings} {options : RunOptions} {migration : Migration} {files : List FileInside}
  {file : FileInside} {before after : FileTree} {summary : Summary} {location : Location}

def Settings.KeepsSources (settings : Settings) (before after : FileTree) : Prop :=
  ∀ location content, before.place settings.sourceDir <+: location →
    before.get? location = some (.file content) → after.get? location = some (.file content)

/-- Whether each file of the source root in whose place a run puts a source file has the content that is
put there. -/
def Settings.SparesSources (settings : Settings) (before : FileTree) : Prop :=
  ∀ mapping, Mapping.load before settings.mapping = .ok mapping →
    ∀ file ∈ before.sourcesIn settings (before.place settings.sourceDir), ∀ old,
      before.place settings.sourceDir <+: before.place settings.outputDir ++ file.names →
      before.get? (before.place settings.outputDir ++ file.names) = some (.file old) →
      old = Migration.fileContent ⟨mapping, settings.rules⟩ file.content

/-! ### What a failing write leaves -/

theorem FileTree.GainsFiles.keeps {accepts : Location → Prop} {gained : List (Location × Bytes)}
    {content : Bytes} (gains : GainsFiles accepts gained before after)
    (isFile : before.get? location = some (.file content))
    (spares : ∀ file ∈ gained, file.1 = location → file.2 = content) :
    after.get? location = some (.file content) := by
  by_cases isOther : ∀ file ∈ gained, file.1 ≠ location
  · rcases gains.others location isOther with same | ⟨missing, -⟩
    · exact same.trans isFile
    · simp [isFile] at missing
  · push Not at isOther
    obtain ⟨file, member, isPlace⟩ := isOther
    rw [← isPlace, gains.holds file member, spares file member isPlace]

theorem writeMigrated_keeps {content : Bytes} (noLinks : before.HasNoLinks)
    (faultless : settings.sourceDir.fault? = none) (areNames : ∀ name ∈ file.names, IsFileName name)
    (isFile : before.get? location = some (.file content))
    (spares : ∀ after, writeUnit settings (file.migrated settings.sourceDir migration) before = .ok () after →
      before.place settings.outputDir ++ file.names = location →
        migration.fileContent file.content = content) :
    ∀ after, (writeUnit settings (file.migrated settings.sourceDir migration)).left before = after →
      after.HasNoLinks ∧ after.home = before.home ∧ after.get? location = some (.file content) := by
  rintro _ rfl
  have goesOn := (Path.goesOn_foldl_join (Path.ne_nil_of_fault? faultless) areNames).1
  have sameWrite : writeUnit settings (file.migrated settings.sourceDir migration) =
      (writeLines (settings.target file.names) _).within _ := writeUnit_eq faultless goesOn areNames
  rw [sameWrite, FileAction.left_within]
  rcases writeLines_left (settings.target file.names) _ before with written | failed
  · rw [← FileAction.within_eq_ok_iff, ← sameWrite] at written
    have gains := writeMigrated_gains noLinks faultless areNames written
    exact ⟨gains.hasNoLinks noLinks, gains.sameHome, gains.keeps isFile (by simpa using spares _ written)⟩
  · rw [failed]
    have gains := createParent_gains noLinks (settings.target file.names)
    exact ⟨gains.hasNoLinks noLinks, gains.sameHome, gains.keeps isFile (by simp)⟩

theorem writeUnits_keeps {content : Bytes} (noLinks : before.HasNoLinks)
    (faultless : settings.sourceDir.fault? = none)
    (areNames : ∀ file ∈ files, ∀ name ∈ file.names, IsFileName name)
    (isFile : before.get? location = some (.file content))
    (spares : ∀ file ∈ files, before.place settings.outputDir ++ file.names = location →
      migration.fileContent file.content = content) :
    ((writeUnits settings (files.map (FileInside.migrated settings.sourceDir migration))).left before).get?
      location = some (.file content) := by
  induction files generalizing before with
  | nil => exact isFile
  | cons file rest ih =>
      have first := writeMigrated_keeps noLinks faultless (areNames file (by simp)) isFile
        fun _ _ => spares file (by simp)
      have inOrder : writeUnits settings ((file :: rest).map (FileInside.migrated settings.sourceDir migration)) =
        writeUnit settings (file.migrated settings.sourceDir migration) >>= fun _ =>
          writeUnits settings (rest.map (FileInside.migrated settings.sourceDir migration)) := rfl
      rw [inOrder, FileAction.left_bind]
      cases written : writeUnit settings (file.migrated settings.sourceDir migration) before with
      | ok _ between =>
          obtain ⟨plain, sameHome, stillThere⟩ := first between (FileAction.left_of_ok written)
          refine ih plain (fun other member => areNames other (List.mem_cons_of_mem file member)) stillThere ?_
          rw [FileTree.place_congr sameHome]
          exact fun other member => spares other (List.mem_cons_of_mem file member)
      | error _ between => exact (first between (FileAction.left_of_error written)).2.2

/-! ### Runs -/

/-- A plan has one unit for each source file, or one for the source root if that is a file. -/
theorem Plan.units_eq {plan : Plan} (noLinks : before.HasNoLinks) (wellFormed : before.IsWellFormed)
    (made : Plan.make settings before = .ok plan) :
    ∃ files, settings.sourceDir.fault? = none ∧
      plan.units =
        files.map (FileInside.migrated settings.sourceDir ⟨plan.mapping, settings.rules⟩) ∧
      (∀ file ∈ files, ∀ name ∈ file.names, IsFileName name) ∧
      (files = before.sourcesIn settings (before.place settings.sourceDir) ∨
        ∃ content, files = [⟨[], content⟩]) := by
  obtain ⟨-, paths, collected, migrated⟩ := Plan.make_ok made
  obtain ⟨faultless, isInside | ⟨isRoot, -⟩⟩ := FileTree.sourceFiles_ok noLinks wellFormed collected
  · have areFiles : ∀ file ∈ before.sourcesIn settings (before.place settings.sourceDir),
        file ∈ before.filesIn (before.place settings.sourceDir) :=
      fun file member => (List.mem_filter.mp member).1
    subst isInside
    exact ⟨_, faultless, NameMigration.units_eq noLinks wellFormed faultless areFiles migrated,
      fun file member => wellFormed.isFileName (areFiles file member), Or.inl rfl⟩
  · subst isRoot
    obtain ⟨unit, rest, ⟨content, -, rfl⟩, isRest, isUnits⟩ :=
      List.forall₂_cons_left_iff.mp (migrateFiles_ok migrated)
    obtain rfl := List.forall₂_nil_left_iff.mp isRest
    exact ⟨[⟨[], content⟩], faultless, isUnits, by simp, Or.inr ⟨content, rfl⟩⟩

theorem left_run (unfetched : options.fetch = false) (unprepared : options.prepare = false)
    (before : FileTree) : (run settings options).left before = before ∨
      ∃ plan, Plan.make settings before = .ok plan ∧
        (run settings options).left before = (writeUnits settings plan.units).left before := by
  rw [FileAction.left, run_eq unfetched unprepared]
  cases settings.fault? with
  | some fault => exact Or.inl rfl
  | none =>
      cases made : Plan.make settings before with
      | error fault => exact Or.inl rfl
      | ok plan =>
          cases options.dryRun with
          | true => exact Or.inl rfl
          | false =>
              refine Or.inr ⟨plan, rfl, ?_⟩
              simp only [FileAction.left, Bool.false_eq_true, if_false]
              cases writeUnits settings plan.units before <;> rfl

theorem run_keeps (noLinks : before.HasNoLinks) (wellFormed : before.IsWellFormed)
    (unfetched : options.fetch = false) (unprepared : options.prepare = false)
    (spares : settings.SparesSources before) :
    settings.KeepsSources before ((run settings options).left before) := by
  intro location content inside isFile
  rcases left_run unfetched unprepared before with untouched | ⟨plan, made, isLeft⟩
  · rwa [untouched]
  · obtain ⟨loaded, -⟩ := Plan.make_ok made
    obtain ⟨files, faultless, isUnits, areNames, isSources | ⟨_, rfl⟩⟩ :=
      Plan.units_eq noLinks wellFormed made
    · rw [isLeft, isUnits]
      refine writeUnits_keeps noLinks faultless areNames isFile ?_
      rintro file member rfl
      exact (spares plan.mapping loaded file (isSources ▸ member) content inside isFile).symm
    · -- The only unit is the source root itself, which is not written.
      rw [isLeft, isUnits, List.map_singleton, writeUnits_singleton]
      refine (writeMigrated_keeps noLinks faultless (by simp) isFile ?_ _ rfl).2.2
      intro after written
      exact absurd written (writeUnit_root noLinks wellFormed.hasHome faultless rfl)

theorem run_spares (noLinks : before.HasNoLinks) (wellFormed : before.IsWellFormed)
    (unfetched : options.fetch = false) (unprepared : options.prepare = false)
    (writes : options.dryRun = false) (ran : run settings options before = .ok summary after)
    (keeps : settings.KeepsSources before after) : settings.SparesSources before := by
  intro mapping loads file member old inside isOld
  obtain ⟨-, plan, made, written, -⟩ := run_ok unfetched unprepared writes ran
  obtain ⟨loaded, -⟩ := Plan.make_ok made
  obtain rfl : mapping = plan.mapping := Except.ok.inj (loads.symm.trans loaded)
  obtain ⟨files, faultless, isUnits, areNames, rfl | ⟨_, rfl⟩⟩ := Plan.units_eq noLinks wellFormed made
  · have distinct :
        ((before.sourcesIn settings (before.place settings.sourceDir)).map FileInside.names).Nodup :=
      (List.filter_sublist.map _).nodup (before.filesIn_nodup _)
    rw [isUnits] at written
    have gains := writeUnits_gains noLinks faultless areNames distinct written
    have isKept := keeps _ old inside isOld
    rw [gains.holds _ (List.mem_map_of_mem member)] at isKept
    simpa using isKept.symm
  · rw [isUnits] at written
    obtain ⟨between, first, -⟩ := writeUnits_cons written
    exact absurd first (writeUnit_root noLinks wellFormed.hasHome faultless rfl)

/-- Roots apart from each other have no place in common. -/
theorem Settings.sparesSources_of_apart
    (notBelow : ¬before.place settings.sourceDir <+: before.place settings.outputDir)
    (notAbove : ¬before.place settings.outputDir <+: before.place settings.sourceDir) :
    settings.SparesSources before := by
  intro mapping _ file _ old inside _
  rcases List.prefix_or_prefix_of_prefix inside (List.prefix_append _ file.names) with below | above
  · exact absurd below notBelow
  · exact absurd above notAbove

/-- A run keeps the files of the source root, however it ends, if it puts no other content in the place of
one of them; and a run that succeeds keeps them only then. -/
theorem run_keepsSources_iff (noLinks : before.HasNoLinks) (wellFormed : before.IsWellFormed)
    (unfetched : options.fetch = false) (unprepared : options.prepare = false) :
    (settings.SparesSources before →
      settings.KeepsSources before ((run settings options).left before)) ∧
      ∀ summary after, options.dryRun = false → run settings options before = .ok summary after →
        (settings.KeepsSources before after ↔ settings.SparesSources before) := by
  refine ⟨run_keeps noLinks wellFormed unfetched unprepared, ?_⟩
  intro summary after writes ran
  constructor
  · exact run_spares noLinks wellFormed unfetched unprepared writes ran
  · intro spares
    have keeps := run_keeps noLinks wellFormed unfetched unprepared spares
    rwa [FileAction.left_of_ok ran] at keeps

theorem pantry_hasNoLinks : pantry.HasNoLinks :=
  .of_entries (by simp [pantry])

theorem pantry_isWellFormed : pantry.IsWellFormed :=
  .of_entries (by decide) (by decide) (by decide)

theorem run_keepsSources_pantry :
    pantry.HasNoLinks ∧ pantry.IsWellFormed ∧
      ∃ summary after, run pantrySettings {} pantry = .ok summary after ∧ after ≠ pantry ∧
        pantrySettings.KeepsSources pantry after := by
  obtain ⟨summary, after, ran, -, changed⟩ := run_pantry
  have spares : pantrySettings.SparesSources pantry :=
    Settings.sparesSources_of_apart (by decide) (by decide)
  exact ⟨pantry_hasNoLinks, pantry_isWellFormed, summary, after, ran, changed,
    ((run_keepsSources_iff pantry_hasNoLinks pantry_isWellFormed rfl rfl).2 summary after rfl ran).mpr
      spares⟩

def respelledSettings : Settings :=
  { pantrySettings with outputDir := "./old".toList }

theorem pantry_overwritten :
    pantry.HasNoLinks ∧ pantry.IsWellFormed ∧ respelledSettings.fault? = none ∧
      ∃ summary after, run respelledSettings {} pantry = .ok summary after ∧
        ¬respelledSettings.KeepsSources pantry after := by
  have faultless : respelledSettings.fault? = none := by cbv
  have succeeds : ((FileAction.success? (run respelledSettings {}) pantry).bind fun result =>
      result.2.get? (["work", "old", "Jam.java"].map String.toList)) =
        some (.file (Text.utf8 "a.Pot\n".toList)) := by cbv
  obtain ⟨⟨summary, after⟩, isSuccess, isWritten⟩ := Option.bind_eq_some_iff.mp succeeds
  refine ⟨pantry_hasNoLinks, pantry_isWellFormed, faultless, summary, after,
    FileAction.success?_eq_some_iff.mp isSuccess, ?_⟩
  intro keeps
  have isKept := keeps (["work", "old", "Jam.java"].map String.toList)
    (Text.utf8 "import a.Jar;\nJar".toList) (by decide) (by decide)
  exact absurd (isKept.symm.trans isWritten) (by decide)

-- The absolute path of the source root is another spelling of it.
example : pantry.place "/work/old".toList = pantry.place pantrySettings.sourceDir := by decide

end NameMigration
