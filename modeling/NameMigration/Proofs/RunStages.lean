import NameMigration.Proofs.SourceWalk
import NameMigration.Run.Basic

/-!
The stages of a run that neither fetches nor prunes: it makes a plan out of everything it reads, and only
then writes one unit after the other. In a tree without links the plan has one unit for each source file,
and a unit that is written gains the tree one file, at the same place below the output root.
-/

namespace NameMigration

def Plan.summary (plan : Plan) (settings : Settings) (options : RunOptions) : Summary where
  sourceDir := settings.sourceDir
  outputDir := settings.outputDir
  flatMappings := plan.mapping.flat.length
  nestedMappings := plan.mapping.nested.length
  malformedLines := plan.mapping.malformed
  units := plan.units.length
  filesWritten := if options.dryRun then 0 else plan.units.length
  dryRun := options.dryRun
  counts := Counts.total (plan.units.map (·.counts))

def FileInside.migrated (root : Path) (migration : Migration) (file : FileInside) : MigratedUnit :=
  migration.migrate ⟨file.path root, (Utf8.decodeLossy file.content).lines⟩

variable {settings : Settings} {options : RunOptions} {tree before after : FileTree}

theorem run_eq (unfetched : options.fetch = false) (unprepared : options.prepare = false) (tree : FileTree) :
    run settings options tree =
      match settings.fault? with
      | some fault => .error (.settings fault) tree
      | none =>
          match Plan.make settings tree with
          | .error fault => .error fault tree
          | .ok plan =>
              if options.dryRun then .ok (plan.summary settings options) tree
              else
                match writeUnits settings plan.units tree with
                | .ok _ after => .ok (plan.summary settings options) after
                | .error fault after => .error fault after := by
  unfold run
  cases settings.fault? with
  | some fault => rfl
  | none =>
      simp only [unfetched, unprepared, Bool.false_eq_true, if_false]
      cases isPlan : Plan.make settings tree with
      | error fault => simp [FileAction.looking, isPlan, bind, EStateM.bind]
      | ok plan =>
          cases dry : options.dryRun with
          | true =>
              simp [FileAction.looking, isPlan, dry, bind, EStateM.bind, pure, EStateM.pure, Plan.summary]
          | false =>
              simp only [FileAction.looking, isPlan, dry, bind, EStateM.bind, pure, EStateM.pure,
                Plan.summary, Bool.not_false, Bool.false_eq_true, if_true, if_false]
              cases writeUnits settings plan.units tree <;> rfl

theorem run_ok {summary : Summary} (unfetched : options.fetch = false) (unprepared : options.prepare = false)
    (writes : options.dryRun = false) (ran : run settings options before = .ok summary after) :
    settings.fault? = none ∧ ∃ plan, Plan.make settings before = .ok plan ∧
      writeUnits settings plan.units before = .ok () after ∧ summary = plan.summary settings options := by
  rw [run_eq unfetched unprepared] at ran
  cases isFault : settings.fault? with
  | some fault => simp [isFault] at ran
  | none =>
      cases isPlan : Plan.make settings before with
      | error fault => simp [isFault, isPlan] at ran
      | ok plan =>
          cases written : writeUnits settings plan.units before with
          | error fault changed => simp [isFault, isPlan, writes, written] at ran
          | ok _ changed =>
              simp only [isFault, isPlan, writes, written, Bool.false_eq_true, if_false] at ran
              cases ran
              exact ⟨rfl, plan, rfl, written, rfl⟩

/-! ### The plan -/

theorem Plan.make_ok {plan : Plan} (made : Plan.make settings tree = .ok plan) :
    Mapping.load tree settings.mapping = .ok plan.mapping ∧
      ∃ paths, tree.sourceFiles settings settings.sourceDir = .ok paths ∧
        Migration.migrateFiles ⟨plan.mapping, settings.rules⟩ tree paths = .ok plan.units := by
  obtain ⟨mapping, loaded, made⟩ := bind_eq_ok_iff.mp made
  obtain ⟨paths, collected, made⟩ := bind_eq_ok_iff.mp made
  obtain ⟨units, migrated, made⟩ := bind_eq_ok_iff.mp made
  cases pure_eq_ok_iff.mp made
  exact ⟨loaded, paths, collected, migrated⟩

theorem SourceUnit.read_ok {path : Path} {unit : SourceUnit} (read : SourceUnit.read tree path = .ok unit) :
    ∃ content, tree.readBytes path = .ok content ∧ unit = ⟨path, (Utf8.decodeLossy content).lines⟩ := by
  unfold SourceUnit.read at read
  split at read
  · rename_i content isRead
    cases read
    exact ⟨content, isRead, rfl⟩
  · simp at read

theorem migrateFiles_ok {migration : Migration} {paths : List Path} {units : List MigratedUnit}
    (migrated : migration.migrateFiles tree paths = .ok units) :
    List.Forall₂ (fun path unit => ∃ content, tree.readBytes path = .ok content ∧
      unit = migration.migrate ⟨path, (Utf8.decodeLossy content).lines⟩) paths units := by
  refine (mapM_eq_ok_iff.mp migrated).imp ?_
  intro path unit isUnit
  obtain ⟨source, isRead, isMigrated⟩ := bind_eq_ok_iff.mp isUnit
  obtain ⟨content, isContent, rfl⟩ := SourceUnit.read_ok isRead
  exact ⟨content, isContent, (pure_eq_ok_iff.mp isMigrated).symm⟩

/-- The units of source files are those of their contents. -/
theorem units_eq {migration : Migration} {root : Path} {files : List FileInside}
    {units : List MigratedUnit} (noLinks : tree.HasNoLinks) (wellFormed : tree.IsWellFormed)
    (faultless : root.fault? = none) (areFiles : ∀ file ∈ files, file ∈ tree.filesIn (tree.place root))
    (migrated : migration.migrateFiles tree (files.map (FileInside.path root)) = .ok units) :
    units = files.map (FileInside.migrated root migration) := by
  have each := List.forall₂_map_left_iff.mp (migrateFiles_ok migrated)
  clear migrated
  induction each with
  | nil => rfl
  | @cons file unit rest units isUnit _ ih =>
      obtain ⟨content, isRead, rfl⟩ := isUnit
      have isContent :=
        FileTree.readBytes_path noLinks wellFormed faultless (areFiles file (by simp)) isRead
      rw [List.map_cons, ih fun other member => areFiles other (List.mem_cons_of_mem file member),
        isContent]
      rfl

/-! ### Writing -/

def Settings.target (settings : Settings) (names : List Text) : Path :=
  settings.outputDir.join (Text.joinWith ['/'] names)

theorem Settings.place_target (settings : Settings) (tree : FileTree) {names : List Text}
    (areNames : ∀ name ∈ names, IsFileName name) :
    tree.place (settings.target names) = tree.place settings.outputDir ++ names :=
  Path.place_placed tree settings.outputDir areNames

theorem Settings.start_target (settings : Settings) (home : Location) {names : List Text}
    (areNames : ∀ name ∈ names, IsFileName name) :
    (settings.target names).start home = settings.outputDir.start home :=
  Path.start_congr (Path.isAbsolute_join _ (Path.joinWith_isAbsolute areNames)) home

theorem Settings.names_target (settings : Settings) {names : List Text}
    (areNames : ∀ name ∈ names, IsFileName name) :
    (settings.target names).names = settings.outputDir.names ++ names := by
  rw [Settings.target, Path.names_join _ (Path.joinWith_isAbsolute areNames), Path.names_joinWith areNames]

theorem Settings.placedUnder?_eq {path : Path} {names : List Text}
    (faultless : settings.sourceDir.fault? = none) (goesOn : settings.sourceDir.GoesOn names path)
    (areNames : ∀ name ∈ names, IsFileName name) :
    settings.sourceDir.placedUnder? settings.outputDir path = some (settings.target names) := by
  rw [Path.placedUnder?, goesOn.relativeTo?_eq (Path.ne_nil_of_fault? faultless) areNames]
  rfl

theorem writeUnit_eq {unit : MigratedUnit} {names : List Text} (faultless : settings.sourceDir.fault? = none)
    (goesOn : settings.sourceDir.GoesOn names unit.path) (areNames : ∀ name ∈ names, IsFileName name) :
    writeUnit settings unit =
      (writeLines (settings.target names) unit.lines).within (.unit unit.path) := by
  rw [writeUnit, settings.placedUnder?_eq faultless goesOn areNames]

theorem writeUnit_gains {unit : MigratedUnit} {names : List Text} (noLinks : before.HasNoLinks)
    (faultless : settings.sourceDir.fault? = none) (goesOn : settings.sourceDir.GoesOn names unit.path)
    (areNames : ∀ name ∈ names, IsFileName name)
    (written : writeUnit settings unit before = .ok () after) :
    FileTree.GainsFiles
      (Location.IsOnWay (settings.outputDir.start before.home) (settings.outputDir.names ++ names))
      [(before.place settings.outputDir ++ names, (Text.ofLines unit.lines).utf8)] before after := by
  rw [writeUnit_eq faultless goesOn areNames] at written
  have gains := writeLines_gains noLinks (FileAction.within_eq_ok_iff.mp written)
  rwa [settings.names_target areNames, settings.start_target before.home areNames,
    settings.place_target before areNames] at gains

/-- A source root that is itself a source file has no place below the output root. -/
theorem writeUnit_root {unit : MigratedUnit} (noLinks : before.HasNoLinks) (home : before.HasHome)
    (faultless : settings.sourceDir.fault? = none) (isRoot : unit.path = settings.sourceDir) :
    writeUnit settings unit before ≠ .ok () after := by
  have goesOn : settings.sourceDir.GoesOn [] unit.path := isRoot ▸ Path.GoesOn.refl settings.sourceDir
  rw [writeUnit_eq faultless goesOn (by simp)]
  intro written
  exact writeLines_unnamed noLinks home (Path.join_nil settings.outputDir)
    (FileAction.within_eq_ok_iff.mp written)

end NameMigration
