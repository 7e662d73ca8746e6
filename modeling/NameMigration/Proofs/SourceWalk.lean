import NameMigration.Proofs.OpenWays
import NameMigration.Sources.Collect

/-!
The walk through the source files of a tree without links: it finds every file inside the source root,
once, and the last of its names decides whether it is a source file.
-/

namespace NameMigration

structure FileInside where
  names : List Text
  content : Bytes
  deriving DecidableEq, Repr

def FileInside.path (root : Path) (file : FileInside) : Path :=
  file.names.foldl Path.join root

namespace FileTree

variable {tree : FileTree} {directory location : Location} {root : Path} {paths : List Path}
  {settings : Settings}

/-! ### Entries -/

theorem mem_entries_of_get? {entry : FileEntry} (inside : location ≠ [])
    (found : tree.get? location = some entry) : (location, entry) ∈ tree.entries := by
  rw [get?, if_neg inside, Option.map_eq_some_iff] at found
  obtain ⟨⟨place, _⟩, isFound, rfl⟩ := found
  have same : place = location := by simpa using List.find?_some isFound
  exact same ▸ List.mem_of_find?_eq_some isFound

theorem HasNoLinks.of_entries (plain : ∀ entry ∈ tree.entries, ∀ target, entry.2 ≠ .link target) :
    tree.HasNoLinks := by
  intro location target isLink
  have inside : location ≠ [] := by
    rintro rfl
    simp at isLink
  exact plain _ (mem_entries_of_get? inside isLink) target rfl

theorem IsWellFormed.of_entries (named : ∀ entry ∈ tree.entries, ∀ name ∈ entry.1, IsFileName name)
    (above : ∀ entry ∈ tree.entries, tree.get? entry.1.dropLast = some .directory)
    (homed : tree.get? tree.home = some .directory) : tree.IsWellFormed := by
  refine ⟨?_, ?_, homed⟩
  · intro location entry found
    by_cases isRoot : location = []
    · simp [isRoot]
    · exact named _ (mem_entries_of_get? isRoot found)
  · intro location name isThere
    obtain ⟨entry, found⟩ := Option.isSome_iff_exists.mp isThere
    have inDirectory := above _ (mem_entries_of_get? (by simp) found)
    simpa using inDirectory

theorem get?_of_mem_entries {entry : FileEntry} (inside : location ≠ [])
    (member : (location, entry) ∈ tree.entries) : tree.get? location = some entry := by
  rw [get?, if_neg inside, tree.ordered.find?_of_mem member]
  rfl

theorem mem_inside_iff {entry : FileEntry} :
    (location, entry) ∈ tree.inside directory ↔
      ∃ names, names ≠ [] ∧ location = directory ++ names ∧ tree.get? location = some entry := by
  simp only [inside, List.mem_filter, isInside, Bool.and_eq_true, List.isPrefixOf_iff_prefix, bne_iff_ne]
  constructor
  · rintro ⟨member, ⟨names, rfl⟩, proper⟩
    have nonempty : names ≠ [] := by
      rintro rfl
      exact proper (List.append_nil directory)
    exact ⟨names, nonempty, rfl,
      get?_of_mem_entries (List.append_ne_nil_of_right_ne_nil _ nonempty) member⟩
  · rintro ⟨names, nonempty, rfl, found⟩
    have inside : directory ++ names ≠ [] := List.append_ne_nil_of_right_ne_nil _ nonempty
    refine ⟨mem_entries_of_get? inside found, ⟨names, rfl⟩, ?_⟩
    simpa using nonempty

/-! ### Files inside a directory -/

def filesIn (tree : FileTree) (directory : Location) : List FileInside :=
  (tree.inside directory).filterMap fun (location, entry) =>
    match entry with
    | .file content => some ⟨location.drop directory.length, content⟩
    | _ => none

theorem mem_filesIn_iff {file : FileInside} :
    file ∈ tree.filesIn directory ↔
      file.names ≠ [] ∧ tree.get? (directory ++ file.names) = some (.file file.content) := by
  simp only [filesIn, List.mem_filterMap, Prod.exists]
  constructor
  · rintro ⟨location, entry, member, isFile⟩
    obtain ⟨names, nonempty, rfl, found⟩ := mem_inside_iff.mp member
    cases entry with
    | file content =>
        simp only [List.drop_left, Option.some.injEq] at isFile
        subst isFile
        exact ⟨nonempty, found⟩
    | directory => simp at isFile
    | link target => simp at isFile
  · rintro ⟨nonempty, found⟩
    exact ⟨directory ++ file.names, .file file.content,
      mem_inside_iff.mpr ⟨file.names, nonempty, rfl, found⟩, by simp⟩

theorem filesIn_nodup (tree : FileTree) (directory : Location) :
    ((tree.filesIn directory).map FileInside.names).Nodup := by
  have apart : (tree.inside directory).Pairwise fun first second =>
      first.1.drop directory.length ≠ second.1.drop directory.length := by
    refine List.Pairwise.imp_of_mem ?_ (tree.ordered.filter _)
    rintro ⟨first, _⟩ ⟨second, _⟩ isFirst isSecond before same
    obtain ⟨_, _, rfl, _⟩ := mem_inside_iff.mp isFirst
    obtain ⟨_, _, rfl, _⟩ := mem_inside_iff.mp isSecond
    simp only [List.drop_left] at same
    exact List.lt_irrefl _ (same ▸ before)
  rw [List.Nodup, List.pairwise_map, filesIn]
  refine List.Pairwise.filterMap _ ?_ apart
  rintro ⟨first, firstEntry⟩ ⟨second, secondEntry⟩ different firstFile isFirst secondFile isSecond
  cases firstEntry <;> simp at isFirst
  cases secondEntry <;> simp at isSecond
  rw [← isFirst, ← isSecond]
  exact different

/-- The files that a walk finds, by the paths that it makes. -/
theorem filesInside_ok (noLinks : tree.HasNoLinks) {links : Nat} {around : List Walked} {base : Walked}
    (walked : tree.filesInside root links around base = .ok paths) :
    paths = (tree.filesIn base.location).map (FileInside.path base.path) := by
  rw [filesInside] at walked
  obtain ⟨found, looked, flattened⟩ := bind_eq_ok_iff.mp walked
  have plain : ∀ entry ∈ tree.inside base.location, ∀ target, entry.2 ≠ .link target := by
    rintro ⟨location, entry⟩ member target rfl
    obtain ⟨_, _, _, isLink⟩ := mem_inside_iff.mp member
    exact noLinks location target isLink
  rw [← pure_eq_ok_iff.mp flattened, filesIn]
  rw [mapM_eq_ok_iff] at looked
  clear walked flattened
  generalize tree.inside base.location = entries at looked plain ⊢
  induction looked with
  | nil => rfl
  | @cons entry result rest results isResult _ ih =>
      obtain ⟨location, entry⟩ := entry
      rw [List.flatten_cons, ih fun other member => plain other (List.mem_cons_of_mem _ member)]
      cases entry with
      | directory =>
          simp only at isResult
          split at isResult
          · simp at isResult
          · cases isResult
            rfl
      | file content =>
          cases isResult
          rfl
      | link target => exact absurd rfl (plain (location, .link target) (by simp) target)

theorem IsWellFormed.directory_of_inside (wellFormed : tree.IsWellFormed) {names : List Text}
    (nonempty : names ≠ []) (found : (tree.get? (location ++ names)).isSome) :
    tree.get? location = some .directory := by
  induction names using List.reverseRecOn with
  | nil => exact absurd rfl nonempty
  | append_singleton front last ih =>
      rw [← List.append_assoc] at found
      have isDirectory := wellFormed.above _ _ found
      by_cases isEmpty : front = []
      · simpa [isEmpty] using isDirectory
      · exact ih isEmpty (by simp [isDirectory])

theorem IsWellFormed.isFileName (wellFormed : tree.IsWellFormed) {file : FileInside}
    (member : file ∈ tree.filesIn directory) : ∀ name ∈ file.names, IsFileName name := by
  intro name isName
  exact wellFormed.named _ _ (mem_filesIn_iff.mp member).2 name (List.mem_append_right directory isName)

theorem IsWellFormed.hasHome (wellFormed : tree.IsWellFormed) : tree.HasHome := by
  rintro place ⟨names, isHome⟩
  by_cases isEmpty : names = []
  · rw [isEmpty, List.append_nil] at isHome
    rw [isHome, wellFormed.homed]
  · refine wellFormed.directory_of_inside isEmpty ?_
    rw [isHome, wellFormed.homed]
    rfl

theorem filesBelow_ok (noLinks : tree.HasNoLinks) (wellFormed : tree.IsWellFormed)
    (walked : tree.filesBelow root = .ok paths) :
    root.fault? = none ∧ (paths = (tree.filesIn (tree.place root)).map (FileInside.path root) ∨
      paths = [root] ∧ tree.filesIn (tree.place root) = []) := by
  cases isLocated : tree.locate root with
  | error fault => simp [filesBelow, isLocated] at walked
  | ok found =>
      obtain ⟨source, entry⟩ := found
      obtain ⟨rfl, found⟩ := wellFormed.hasHome.get?_of_locate noLinks isLocated
      refine ⟨fault?_of_locate isLocated, ?_⟩
      have nothingInside (notDirectory : entry ≠ .directory) : tree.filesIn (tree.place root) = [] := by
        rw [List.eq_nil_iff_forall_not_mem]
        intro file member
        obtain ⟨nonempty, isFile⟩ := mem_filesIn_iff.mp member
        have isThere : (tree.get? (tree.place root ++ file.names)).isSome := by simp [isFile]
        have isDirectory := wellFormed.directory_of_inside nonempty isThere
        rw [found, Option.some_inj] at isDirectory
        exact notDirectory isDirectory
      cases entry with
      | directory =>
          simp only [filesBelow, isLocated] at walked
          exact Or.inl (filesInside_ok noLinks walked)
      | file content =>
          simp only [filesBelow, isLocated, Except.ok.injEq] at walked
          exact Or.inr ⟨walked.symm, nothingInside (by simp)⟩
      | link target => exact absurd found (noLinks _ target)

/-! ### Source files -/

def sourcesIn (tree : FileTree) (settings : Settings) (directory : Location) : List FileInside :=
  (tree.filesIn directory).filter fun file => file.names.getLast?.any settings.isSourceFile

theorem mem_sourcesIn_iff {file : FileInside} :
    file ∈ tree.sourcesIn settings directory ↔
      tree.get? (directory ++ file.names) = some (.file file.content) ∧
        ∃ name, file.names.getLast? = some name ∧ settings.isSourceFile name = true := by
  rw [sourcesIn, List.mem_filter, mem_filesIn_iff, Option.any_eq_true]
  constructor
  · rintro ⟨⟨-, found⟩, isSource⟩
    exact ⟨found, isSource⟩
  · rintro ⟨found, name, isLast, isSource⟩
    refine ⟨⟨?_, found⟩, name, isLast, isSource⟩
    intro isEmpty
    simp [isEmpty] at isLast

end FileTree

section Paths

variable {root : Path} {file : FileInside}

theorem IsFileName.fileName?_eq {name : Text} (isName : IsFileName name) :
    Path.fileName? name = some name := by
  have component : Path.Parts.pieceComponent name = .name name := by
    simp [Path.Parts.pieceComponent, isName.ne_parent]
  rw [Path.fileName?, Path.components_eq name, isName.names_eq]
  simp [component]

theorem Settings.isSourceFile_eq_of_fileName? {settings : Settings} {first second : Path}
    (sameName : first.fileName? = second.fileName?) :
    settings.isSourceFile first = settings.isSourceFile second := by
  rw [Settings.isSourceFile, Path.extension?, sameName, ← Path.extension?, ← Settings.isSourceFile]

theorem FileInside.isSourceFile_path (settings : Settings) (nonempty : root ≠ []) (areNames : ∀ name ∈ file.names, IsFileName name)
    (proper : file.names ≠ []) :
    settings.isSourceFile (file.path root) = file.names.getLast?.any settings.isSourceFile := by
  have goesOn := (Path.goesOn_foldl_join nonempty areNames).1
  obtain ⟨front, last, split⟩ := (List.eq_nil_or_concat file.names).resolve_left proper
  rw [List.concat_eq_append] at split
  have isLast : IsFileName last := areNames last (by simp [split])
  rw [FileInside.path]
  rw [split] at goesOn areNames ⊢
  rw [List.getLast?_concat, Option.any_some]
  exact Settings.isSourceFile_eq_of_fileName?
    ((goesOn.fileName?_eq areNames).trans isLast.fileName?_eq.symm)

theorem FileInside.place_path (tree : FileTree) (nonempty : root ≠ [])
    (areNames : ∀ name ∈ file.names, IsFileName name) :
    tree.place (file.path root) = tree.place root ++ file.names := by
  have goesOn := (Path.goesOn_foldl_join nonempty areNames).1
  rw [FileInside.path, FileTree.place, goesOn.names_eq areNames, Location.follow_append,
    Location.follow_fileNames areNames, Path.start_congr goesOn.isAbsolute_eq]
  rfl

end Paths

namespace FileTree

variable {tree : FileTree} {root : Path} {paths : List Path} {settings : Settings}

theorem sourceFiles_ok (noLinks : tree.HasNoLinks) (wellFormed : tree.IsWellFormed)
    (walked : tree.sourceFiles settings root = .ok paths) :
    root.fault? = none ∧
      (paths = (tree.sourcesIn settings (tree.place root)).map (FileInside.path root) ∨
        paths = [root] ∧ tree.sourcesIn settings (tree.place root) = []) := by
  obtain ⟨found, isFound, kept⟩ := bind_eq_ok_iff.mp walked
  replace kept := pure_eq_ok_iff.mp kept
  obtain ⟨faultless, inside | ⟨isRoot, isEmpty⟩⟩ := filesBelow_ok noLinks wellFormed isFound
  · refine ⟨faultless, Or.inl ?_⟩
    rw [← kept, inside, List.filter_map, sourcesIn]
    congr 1
    apply List.filter_congr
    intro file member
    exact FileInside.isSourceFile_path settings (Path.ne_nil_of_fault? faultless)
      (wellFormed.isFileName member) (mem_filesIn_iff.mp member).1
  · have noSources : tree.sourcesIn settings (tree.place root) = [] := by
      rw [sourcesIn, isEmpty, List.filter_nil]
    refine ⟨faultless, ?_⟩
    rw [noSources, ← kept, isRoot]
    by_cases isSource : settings.isSourceFile root = true
    · exact Or.inr ⟨by simp [isSource], rfl⟩
    · exact Or.inl (by simp [isSource])

/-- What is read from the path of a file inside a directory is the content of that file. -/
theorem readBytes_path (noLinks : tree.HasNoLinks) (wellFormed : tree.IsWellFormed)
    (faultless : root.fault? = none) {file : FileInside} (member : file ∈ tree.filesIn (tree.place root))
    {content : Bytes} (read : tree.readBytes (file.path root) = .ok content) : content = file.content := by
  obtain ⟨entry, isFound, isContent⟩ := bind_eq_ok_iff.mp read
  have place :=
    FileInside.place_path tree (Path.ne_nil_of_fault? faultless) (wellFormed.isFileName member)
  unfold find at isFound
  cases isLocated : tree.locate (file.path root) with
  | error fault => simp [isLocated, Except.map] at isFound
  | ok found =>
      obtain ⟨samePlace, sameEntry⟩ := place_of_locate noLinks isLocated
      rw [← samePlace, place, (mem_filesIn_iff.mp member).2, Option.getD_some] at sameEntry
      simp only [isLocated, Except.map, Except.ok.injEq] at isFound
      rw [← isFound, ← sameEntry] at isContent
      exact (Except.ok.inj isContent).symm

end FileTree

end NameMigration
