import Mathlib
import NameMigration.Proofs.FileWrites
import NameMigration.Proofs.RunStages

/-!
The order in which the units of a run are written. Their paths come from one walk through the source root,
so no two of them are written to the same place, and a list of units that can be written at all can be
written in any order, with the same tree in the end.
-/

namespace NameMigration

variable {settings : Settings} {tree before after : FileTree} {unit : MigratedUnit}
  {units others : List MigratedUnit} {root path : Path} {paths : List Path} {names : List Text}

/-! ### Paths of source files -/

def Path.IsFileInside (root path : Path) : Prop :=
  ∃ names, names ≠ [] ∧ (∀ name ∈ names, IsFileName name) ∧ path = names.foldl Path.join root

theorem Path.names_foldl_join (nonempty : root ≠ []) (areNames : ∀ name ∈ names, IsFileName name) :
    (names.foldl Path.join root).names = root.names ++ names :=
  (Path.goesOn_foldl_join nonempty areNames).1.names_eq areNames

theorem FileTree.sourceFiles_nodup (noLinks : tree.HasNoLinks) (wellFormed : tree.IsWellFormed)
    (collected : tree.sourceFiles settings root = .ok paths) :
    paths.Nodup ∧ ((∀ path ∈ paths, root.IsFileInside path) ∨ paths = [root]) := by
  obtain ⟨faultless, rfl | ⟨rfl, -⟩⟩ := sourceFiles_ok noLinks wellFormed collected
  · have nonempty := Path.ne_nil_of_fault? faultless
    have isFile {file : FileInside} (member : file ∈ tree.sourcesIn settings (tree.place root)) :
        file ∈ tree.filesIn (tree.place root) := (List.mem_filter.mp member).1
    have apart : ((tree.sourcesIn settings (tree.place root)).map FileInside.names).Nodup :=
      (List.filter_sublist.map _).nodup (tree.filesIn_nodup _)
    constructor
    · rw [List.Nodup, List.pairwise_map] at apart ⊢
      refine apart.imp_of_mem ?_
      intro first second isFirst isSecond different samePath
      have sameNames := congrArg Path.names samePath
      rw [FileInside.path, FileInside.path,
        Path.names_foldl_join nonempty (wellFormed.isFileName (isFile isFirst)),
        Path.names_foldl_join nonempty (wellFormed.isFileName (isFile isSecond))] at sameNames
      exact different (List.append_cancel_left sameNames)
    · refine Or.inl ?_
      intro path member
      obtain ⟨file, isSource, rfl⟩ := List.mem_map.mp member
      exact ⟨file.names, (mem_filesIn_iff.mp (isFile isSource)).1, wellFormed.isFileName (isFile isSource),
        rfl⟩
  · exact ⟨List.nodup_singleton root, Or.inr rfl⟩

/-! ### Units as files to be written -/

def Settings.fileWrite (settings : Settings) (unit : MigratedUnit) : FileWrite :=
  ⟨(settings.sourceDir.placedUnder? settings.outputDir unit.path).getD [], unit.lines⟩

section Units

variable (faultless : settings.sourceDir.fault? = none)

include faultless

/-- The file for a unit stands below the output root where its source stands below the source root. -/
theorem exists_target (inside : settings.sourceDir.IsFileInside unit.path) :
    ∃ names, names ≠ [] ∧ (∀ name ∈ names, IsFileName name) ∧
      unit.path = names.foldl Path.join settings.sourceDir ∧
      settings.fileWrite unit = ⟨settings.target names, unit.lines⟩ ∧
      writeUnit settings unit = (settings.fileWrite unit).perform.within (.unit unit.path) := by
  obtain ⟨names, nonempty, areNames, isPath⟩ := inside
  have goesOn : settings.sourceDir.GoesOn names unit.path := by
    rw [isPath]
    exact (Path.goesOn_foldl_join (Path.ne_nil_of_fault? faultless) areNames).1
  have isWrite : settings.fileWrite unit = ⟨settings.target names, unit.lines⟩ := by
    rw [Settings.fileWrite, settings.placedUnder?_eq faultless goesOn areNames, Option.getD_some]
  refine ⟨names, nonempty, areNames, isPath, isWrite, ?_⟩
  rw [writeUnit_eq faultless goesOn areNames, isWrite, FileWrite.perform]

theorem writeUnits_ok_iff (inside : ∀ unit ∈ units, settings.sourceDir.IsFileInside unit.path) :
    writeUnits settings units before = .ok () after ↔
      FileWrite.performAll (units.map settings.fileWrite) before = .ok () after := by
  induction units generalizing before with
  | nil => rfl
  | cons unit rest ih =>
      obtain ⟨_, -, -, -, -, sameWrite⟩ := exists_target faultless (inside unit List.mem_cons_self)
      have inOrder : writeUnits settings (unit :: rest) =
        writeUnit settings unit >>= fun _ => writeUnits settings rest := rfl
      have performed : FileWrite.performAll ((unit :: rest).map settings.fileWrite) =
        (settings.fileWrite unit).perform >>= fun _ =>
          FileWrite.performAll (rest.map settings.fileWrite) := rfl
      simp only [inOrder, performed, FileAction.bind_eq_ok_iff, sameWrite, FileAction.within_eq_ok_iff,
        ih fun other member => inside other (List.mem_cons_of_mem unit member)]

theorem fileWrite_endsInName (inside : settings.sourceDir.IsFileInside unit.path) :
    (settings.fileWrite unit).EndsInName := by
  obtain ⟨names, nonempty, areNames, -, isWrite, -⟩ := exists_target faultless inside
  obtain ⟨front, last, rfl⟩ := (List.eq_nil_or_concat names).resolve_left nonempty
  rw [List.concat_eq_append] at isWrite areNames
  refine ⟨last, ?_, areNames last (by simp)⟩
  obtain ⟨start, parts⟩ :=
    Path.exists_splitOn_join settings.outputDir (Path.joinWith_isAbsolute areNames)
  have pieces : (Text.joinWith ['/'] (front ++ [last])).splitOn '/' = front ++ [last] :=
    List.splitOn_intercalate '/' (fun name member => (areNames name member).unslashed) (by simp)
  rw [isWrite, Settings.target, parts, pieces]
  simp

theorem path_eq_of_place_eq {other : MigratedUnit} (tree : FileTree)
    (inside : settings.sourceDir.IsFileInside unit.path)
    (otherInside : settings.sourceDir.IsFileInside other.path)
    (samePlace : (settings.fileWrite unit).place tree.home = (settings.fileWrite other).place tree.home) :
    unit.path = other.path := by
  obtain ⟨names, -, areNames, isPath, isWrite, -⟩ := exists_target faultless inside
  obtain ⟨otherNames, -, areOtherNames, isOtherPath, isOtherWrite, -⟩ := exists_target faultless otherInside
  have sameTarget : tree.place (settings.target names) = tree.place (settings.target otherNames) := by
    rw [isWrite, isOtherWrite] at samePlace
    exact samePlace
  rw [settings.place_target tree areNames, settings.place_target tree areOtherNames] at sameTarget
  rw [isPath, isOtherPath, List.append_cancel_left sameTarget]

theorem writeUnits_makesAll_iff (noLinks : before.HasNoLinks) (homed : before.HasHome)
    (inside : ∀ unit ∈ units, settings.sourceDir.IsFileInside unit.path)
    (distinct : (units.map (·.path)).Nodup) :
    writeUnits settings units before = .ok () after ↔
      FileWrite.MakesAll (units.map settings.fileWrite) before after := by
  rw [writeUnits_ok_iff faultless inside]
  refine FileWrite.performAll_iff noLinks homed ?_ ?_
  · intro write member
    obtain ⟨unit, isUnit, rfl⟩ := List.mem_map.mp member
    exact fileWrite_endsInName faultless (inside unit isUnit)
  · rw [List.Nodup, List.pairwise_map] at distinct
    rw [List.pairwise_map]
    refine distinct.imp_of_mem ?_
    intro first second isFirst isSecond different samePlace
    exact different (path_eq_of_place_eq faultless before (inside first isFirst) (inside second isSecond)
      samePlace)

end Units

/-- Units from one walk can be written in one order exactly if they can in any other, and every order makes
the same tree of one that has its home and no links. -/
theorem writeUnits_perm (noLinks : tree.HasNoLinks) (wellFormed : tree.IsWellFormed)
    (collected : tree.sourceFiles settings settings.sourceDir = .ok paths)
    (fromPaths : (units.map (·.path)).Subperm paths) (sameUnits : units.Perm others)
    (plain : before.HasNoLinks) (homed : before.HasHome) :
    writeUnits settings units before = .ok () after ↔
      writeUnits settings others before = .ok () after := by
  obtain ⟨faultless, -⟩ := FileTree.sourceFiles_ok noLinks wellFormed collected
  obtain ⟨apart, areInside | rfl⟩ := FileTree.sourceFiles_nodup noLinks wellFormed collected
  · have inside (unit : MigratedUnit) (member : unit ∈ units) :
        settings.sourceDir.IsFileInside unit.path :=
      areInside unit.path (fromPaths.subset (List.mem_map_of_mem member))
    have distinct : (units.map (·.path)).Nodup := by
      obtain ⟨sorted, isPerm, isSublist⟩ := fromPaths
      exact isPerm.nodup_iff.mp (isSublist.nodup apart)
    have same (write : FileWrite) :
        write ∈ units.map settings.fileWrite ↔ write ∈ others.map settings.fileWrite :=
      (sameUnits.map settings.fileWrite).mem_iff
    rw [writeUnits_makesAll_iff faultless plain homed inside distinct,
      writeUnits_makesAll_iff faultless plain homed (fun unit member => inside unit (sameUnits.mem_iff.mpr member))
        ((sameUnits.map _).nodup_iff.mp distinct)]
    exact ⟨fun all => all.of_mem_iff same, fun all => all.of_mem_iff fun write => (same write).symm⟩
  · -- The source root itself is the only file, so there is only one order.
    have atMostOne : units.length ≤ 1 := by simpa using fromPaths.length_le
    have sameList : units = others := by
      match units, atMostOne with
      | [], _ => exact (List.nil_perm.mp sameUnits).symm
      | [unit], _ => exact List.singleton_perm.mp sameUnits
    rw [sameList]

def orchard : FileTree where
  entries := [
    (["work"].map String.toList, .directory),
    (["work", "new"].map String.toList, .directory),
    (["work", "old"].map String.toList, .directory),
    (["work", "old", "Pear.java"].map String.toList, .file []),
    (["work", "old", "shed"].map String.toList, .directory),
    (["work", "old", "shed", "Rake.java"].map String.toList, .file []),
    (["work", "old", "shed", "loft"].map String.toList, .directory),
    (["work", "old", "shed", "loft", "Apple.java"].map String.toList, .file [])]
  home := ["work".toList]
  ordered := by decide

def orchardSettings : Settings :=
  { Settings.default with sourceDir := "old".toList, outputDir := "../work/new/./tree".toList }

def orchardPaths : List Path :=
  ["old/Pear.java", "old/shed/Rake.java", "old/shed/loft/Apple.java"].map String.toList

def orchardUnits : List MigratedUnit :=
  orchardPaths.map fun path => ⟨path, ["ripe".toList], {}⟩

theorem writeUnits_perm_orchard :
    orchard.HasNoLinks ∧ orchard.IsWellFormed ∧
      orchard.sourceFiles orchardSettings orchardSettings.sourceDir = .ok orchardPaths ∧
      ∃ after, after.get? (["work", "new", "tree", "shed", "loft", "Apple.java"].map String.toList) =
          some (.file (Text.utf8 "ripe\n".toList)) ∧
        writeUnits orchardSettings orchardUnits orchard = .ok () after ∧
        writeUnits orchardSettings orchardUnits.reverse orchard = .ok () after := by
  have noLinks : orchard.HasNoLinks := .of_entries (by simp [orchard])
  have wellFormed : orchard.IsWellFormed := .of_entries (by decide) (by decide) (by decide)
  have collected : orchard.sourceFiles orchardSettings orchardSettings.sourceDir = .ok orchardPaths := by cbv
  have succeeds : ((FileAction.success? (writeUnits orchardSettings orchardUnits) orchard).bind fun result =>
      result.2.get? (["work", "new", "tree", "shed", "loft", "Apple.java"].map String.toList)) =
        some (.file (Text.utf8 "ripe\n".toList)) := by cbv
  obtain ⟨⟨_, after⟩, isSuccess, isWritten⟩ := Option.bind_eq_some_iff.mp succeeds
  have written := FileAction.success?_eq_some_iff.mp isSuccess
  have samePaths : orchardUnits.map (·.path) = orchardPaths := by simp [orchardUnits, orchardPaths]
  have fromPaths : (orchardUnits.map (·.path)).Subperm orchardPaths := by rw [samePaths]
  exact ⟨noLinks, wellFormed, collected, after, isWritten, written,
    (writeUnits_perm noLinks wellFormed collected fromPaths orchardUnits.reverse_perm.symm noLinks
      wellFormed.hasHome).mp written⟩

end NameMigration
