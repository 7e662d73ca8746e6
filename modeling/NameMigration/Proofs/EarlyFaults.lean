import Mathlib
import NameMigration.Proofs.RunStages

/-!
What can go wrong in a run before its first write, and dry runs. A run with such a fault reports one and
leaves the tree as it was, a dry run leaves every tree as it was, and it says what the run that writes
would say, but for the files that are written.
-/

namespace NameMigration

/-- A fault of what a run does before it writes: the settings are checked, the mapping is loaded, the
source root is walked through, and every unit is read. -/
inductive IsEarlyFault (settings : Settings) (tree : FileTree) : Fault → Prop where
  | settings {fault : SettingsFault} (isFault : settings.fault? = some fault) :
      IsEarlyFault settings tree (.settings fault)
  | mapping {fault : Fault} (failed : Mapping.load tree settings.mapping = .error fault) :
      IsEarlyFault settings tree fault
  | walk {fault : Fault} (failed : tree.sourceFiles settings settings.sourceDir = .error fault) :
      IsEarlyFault settings tree fault
  | reading {fault : Fault} {paths : List Path} {path : Path}
      (collected : tree.sourceFiles settings settings.sourceDir = .ok paths) (member : path ∈ paths)
      (failed : SourceUnit.read tree path = .error fault) : IsEarlyFault settings tree fault

variable {settings : Settings} {options : RunOptions} {tree after : FileTree} {fault : Fault}

theorem Plan.isEarlyFault_of_make (failed : Plan.make settings tree = .error fault) :
    IsEarlyFault settings tree fault := by
  rcases bind_eq_error_iff.mp failed with notLoaded | ⟨mapping, -, failed⟩
  · exact .mapping notLoaded
  · rcases bind_eq_error_iff.mp failed with notWalked | ⟨paths, collected, failed⟩
    · exact .walk notWalked
    · rcases bind_eq_error_iff.mp failed with notMigrated | ⟨units, -, never⟩
      · obtain ⟨path, member, notMade⟩ := exists_of_mapM_eq_error notMigrated
        rcases bind_eq_error_iff.mp notMade with notRead | ⟨unit, -, never⟩
        · exact .reading collected member notRead
        · simp [pure, Except.pure] at never
      · simp [pure, Except.pure] at never

/-- Only without an early fault is there a plan to carry out. -/
theorem IsEarlyFault.not_planned {plan : Plan} (early : IsEarlyFault settings tree fault)
    (faultless : settings.fault? = none) : Plan.make settings tree ≠ .ok plan := by
  intro made
  obtain ⟨loaded, paths, collected, migrated⟩ := Plan.make_ok made
  cases early with
  | settings isFault => simp [faultless] at isFault
  | mapping failed => simp [loaded] at failed
  | walk failed => simp [collected] at failed
  | reading others member failed =>
      obtain rfl := Except.ok.inj (collected.symm.trans others)
      obtain ⟨unit, isUnit⟩ := exists_ok_of_mapM_eq_ok migrated member
      obtain ⟨source, isRead, -⟩ := bind_eq_ok_iff.mp isUnit
      simp [failed] at isRead

theorem IsEarlyFault.run_eq (early : IsEarlyFault settings tree fault) (unfetched : options.fetch = false)
    (unprepared : options.prepare = false) :
    ∃ reported, IsEarlyFault settings tree reported ∧ run settings options tree = .error reported tree := by
  rw [NameMigration.run_eq unfetched unprepared]
  cases isFault : settings.fault? with
  | some problem => exact ⟨_, .settings isFault, rfl⟩
  | none =>
      cases made : Plan.make settings tree with
      | error reported => exact ⟨reported, Plan.isEarlyFault_of_make made, rfl⟩
      | ok plan => exact absurd made (early.not_planned isFault)

theorem left_run_of_dryRun (unfetched : options.fetch = false) (unprepared : options.prepare = false)
    (dry : options.dryRun = true) (tree : FileTree) : (run settings options).left tree = tree := by
  rw [FileAction.left, run_eq unfetched unprepared, dry]
  cases settings.fault? with
  | some fault => rfl
  | none => cases Plan.make settings tree <;> rfl

theorem run_of_dryRun {plan : Plan} (unfetched : options.fetch = false)
    (unprepared : options.prepare = false) (dry : options.dryRun = true)
    (faultless : settings.fault? = none) (made : Plan.make settings tree = .ok plan) :
    run settings options tree = .ok (plan.summary settings options) tree := by
  simp [run_eq unfetched unprepared, faultless, made, dry]

/-- A run that meets a fault before it writes leaves the tree as it was and reports such a fault. A dry run
leaves every tree as it was, and says what the run that writes says, but for the files that are written. -/
theorem run_leavesNoTrace (unfetched : options.fetch = false) (unprepared : options.prepare = false) :
    (∀ fault, IsEarlyFault settings tree fault →
      ∃ reported, IsEarlyFault settings tree reported ∧
        run settings options tree = .error reported tree) ∧
      (options.dryRun = true → (run settings options).left tree = tree) ∧
      ∀ summary after, options.dryRun = false → run settings options tree = .ok summary after →
        run settings { options with dryRun := true } tree =
          .ok { summary with filesWritten := 0, dryRun := true } tree := by
  refine ⟨?_, ?_, ?_⟩
  · intro fault early
    exact early.run_eq unfetched unprepared
  · intro dry
    exact left_run_of_dryRun unfetched unprepared dry tree
  · intro summary after writes ran
    obtain ⟨faultless, plan, made, -, rfl⟩ := run_ok unfetched unprepared writes ran
    have dryRan : run settings { options with dryRun := true } tree = .ok _ tree :=
      run_of_dryRun unfetched unprepared rfl faultless made
    rw [dryRan]
    rfl

def pantry : FileTree where
  entries := [
    (["work"].map String.toList, .directory),
    (["work", "names"].map String.toList, .file (Text.utf8 "a/Jar b/Pot".toList)),
    (["work", "old"].map String.toList, .directory),
    (["work", "old", "Jam.java"].map String.toList, .file (Text.utf8 "import a.Jar;\nJar".toList))]
  home := ["work".toList]
  ordered := by decide

def pantrySettings : Settings :=
  { Settings.default with
    sourceDir := "old".toList
    outputDir := "../new".toList
    mapping := "names".toList
    legacyNamespace := "a".toList }

theorem run_pantry : ∃ summary after, run pantrySettings {} pantry = .ok summary after ∧
    summary.filesWritten = 1 ∧ after ≠ pantry := by
  have succeeds : (FileAction.success? (run pantrySettings {}) pantry).map (fun result =>
      (result.1.filesWritten, result.2.get? (["new", "Jam.java"].map String.toList))) =
        some (1, some (.file (Text.utf8 "a.Pot\n".toList))) := by cbv
  obtain ⟨⟨summary, after⟩, isSuccess, isWritten⟩ := Option.map_eq_some_iff.mp succeeds
  obtain ⟨isOne, isThere⟩ := Prod.mk.inj isWritten
  refine ⟨summary, after, FileAction.success?_eq_some_iff.mp isSuccess, isOne, ?_⟩
  rintro rfl
  have absent : pantry.get? (["new", "Jam.java"].map String.toList) = none := by decide
  exact absurd (absent.symm.trans isThere) (by simp)

def unnamedSettings : Settings :=
  { pantrySettings with mapping := "labels".toList }

theorem run_leavesNoTrace_pantry :
    IsEarlyFault unnamedSettings pantry (.file .openingMapping "labels".toList .notFound) ∧
      (∃ reported, IsEarlyFault unnamedSettings pantry reported ∧
        run unnamedSettings {} pantry = .error reported pantry) ∧
      ∃ summary after, run pantrySettings {} pantry = .ok summary after ∧
        summary.filesWritten = 1 ∧ after ≠ pantry ∧
        run pantrySettings { dryRun := true } pantry =
          .ok { summary with filesWritten := 0, dryRun := true } pantry := by
  have missing : Mapping.load pantry unnamedSettings.mapping =
      .error (.file .openingMapping "labels".toList .notFound) := by cbv
  have early : IsEarlyFault unnamedSettings pantry _ := .mapping missing
  obtain ⟨summary, after, ran, isOne, changed⟩ := run_pantry
  exact ⟨early, (run_leavesNoTrace rfl rfl).1 _ early, summary, after, ran, isOne, changed,
    (run_leavesNoTrace rfl rfl).2.2 summary after rfl ran⟩

end NameMigration
