import NameMigration.Proofs.OpenWays
import NameMigration.Proofs.PathLadders

/-!
How a way is made through a tree without links: if there is room for it, the directories that are missing
are created from the outermost one on, and then a file can be written where the way ends.
-/

namespace NameMigration

open Path.Parts (isSilent)

namespace FileTree

variable {tree after : FileTree} {location directory start : Location} {steps front : List Text} {last : Text}
  {path : Path} {around : List Path}

theorem HasWay.put {entry : FileEntry} (way : tree.HasWay start steps) (missing : tree.get? location = none) :
    (tree.put location entry).HasWay start steps := by
  refine way.mono ?_
  intro place isDirectory
  rwa [get?_put_of_ne]
  rintro rfl
  simp [missing] at isDirectory

theorem isDirectory_of_way (faultless : path.fault? = none) (short : AreShort path.names)
    (way : tree.HasWay (path.start tree.home) path.names) : tree.isDirectory path = true := by
  have shortSteps : AreShort path.steps := .of_filter (by rwa [Path.filter_steps])
  have stepsWay : tree.HasWay (path.start tree.home) path.steps := .of_names way
  have isSpot := spot_of_canTake faultless (stepsWay.canTake shortSteps)
  have isThere : tree.get? (tree.place path) = some .directory := way.accepts_end
  simp [FileTree.isDirectory, find, locate, isSpot, isThere, Except.map]

/-! ### Directories -/

theorem createDirectory_unnamed (stepped : tree.around path = .ok directory)
    (unnamed : Path.isUnnamed path.last = true) : tree.createDirectory path = .error .alreadyExists := by
  simp only [createDirectory, stepped, unnamed, bind, Except.bind, if_true]
  rfl

theorem createDirectory_named (stepped : tree.around path = .ok directory)
    (isDirectory : tree.get? directory = some .directory) (named : Path.isUnnamed path.last = false)
    (isShort : path.last.utf8Length ≤ 255) :
    tree.createDirectory path =
      if (tree.get? (directory ++ [path.last])).isSome then .error .alreadyExists
      else .ok (tree.put (directory ++ [path.last]) .directory) := by
  have looked : tree.entryIn directory path.last = .ok (tree.get? (directory ++ [path.last])) :=
    entryIn_eq_ok_iff.mpr ⟨isDirectory, isShort, rfl⟩
  simp only [createDirectory, stepped, looked, named, bind, Except.bind, Bool.false_eq_true, if_false]
  rfl

section Ends

variable (ends : path.EndsIn front last)

include ends

theorem goesThrough_front {accepts : Location → Prop} :
    Location.GoesThrough accepts start path.front ↔
      Location.GoesThrough accepts start path.names.dropLast := by
  rw [← ends.filter_front]
  exact Location.goesThrough_filter.symm

theorem follow_front (start : Location) :
    start.follow path.front = start.follow path.names.dropLast := by
  rw [← ends.filter_front, Location.follow_filter]

theorem hasWay_of_ends (way : tree.HasWay start path.names.dropLast)
    (isThere : tree.get? (start.follow path.names) = some .directory) : tree.HasWay start path.names := by
  rw [ends.names_eq] at isThere ⊢
  exact way.concat isThere

variable (short : AreShort path.names)

include short

theorem areShort_front : AreShort path.front := by
  apply AreShort.of_filter
  rw [ends.filter_front]
  exact short.mono (List.dropLast_subset _)

theorem isShort_last : path.last.utf8Length ≤ 255 := by
  rw [ends.front_last_eq.2]
  exact short last (by rw [ends.names_eq]; simp)

theorem around_of_ends (way : tree.HasWay (path.start tree.home) path.names.dropLast) :
    tree.around path = .ok ((path.start tree.home).follow path.front) :=
  around_of_way ends.faultless (areShort_front ends short) ((goesThrough_front ends).mpr way)

/-- Where only the last directory can be missing, it is created or found. -/
theorem createOrFind_of_way (home : tree.HasHome)
    (way : tree.HasWay (path.start tree.home) path.names.dropLast)
    (room : tree.HasRoom (path.start tree.home) path.names) :
    tree.createDirectory path ≠ .error .notFound ∧
      ∃ after, FileAction.createOrFind path tree = .ok () after ∧
        after.HasWay (path.start tree.home) path.names := by
  have stepped := around_of_ends ends short way
  have isDirectory : tree.get? ((path.start tree.home).follow path.front) = some .directory := by
    rw [follow_front ends]
    exact way.accepts_end
  have found (wayThrough : tree.HasWay (path.start tree.home) path.names)
      (isThere : tree.createDirectory path = .error .alreadyExists) :
      tree.createDirectory path ≠ .error .notFound ∧
        ∃ after, FileAction.createOrFind path tree = .ok () after ∧
          after.HasWay (path.start tree.home) path.names := by
    refine ⟨by simp [isThere], tree, ?_, wayThrough⟩
    simp [FileAction.createOrFind, isThere, isDirectory_of_way ends.faultless short wayThrough]
  cases named : Path.isUnnamed path.last with
  | true =>
      refine found ?_ (createDirectory_unnamed stepped named)
      rw [ends.names_eq, ← ends.front_last_eq.2]
      exact way.concat_of_unnamed (home.outside path) named
  | false =>
      have created := createDirectory_named stepped isDirectory named (isShort_last ends short)
      rw [← Path.follow_names_named _ named] at created
      rcases room.accepts_end with missing | isThere
      · rw [missing] at created
        have made : FileAction.createOrFind path tree =
            .ok () (tree.put ((path.start tree.home).follow path.names) .directory) := by
          simp [FileAction.createOrFind, created]
        refine ⟨by simp [created], _, made, ?_⟩
        refine hasWay_of_ends ends (way.put missing) (get?_put_self tree _ ?_)
        simp [Path.follow_names_named _ named]
      · refine found (hasWay_of_ends ends way isThere) ?_
        simpa [isThere] using created

/-! ### Files -/

theorem writeFile_of_way {content : Bytes} (named : Path.isUnnamed path.last = false)
    (way : tree.HasWay (path.start tree.home) path.names.dropLast)
    (isFree : tree.get? (tree.place path) = none ∨ ∃ old, tree.get? (tree.place path) = some (.file old)) :
    tree.writeFile path content = .ok (tree.put (tree.place path) (.file content)) := by
  have frontWay : tree.HasWay (path.start tree.home) path.front := (goesThrough_front ends).mpr way
  have isDirectory : tree.get? ((path.start tree.home).follow path.front) = some .directory :=
    frontWay.accepts_end
  have place := place_eq_front tree named
  have looked : tree.entryIn ((path.start tree.home).follow path.front) path.last =
      .ok (tree.get? (tree.place path)) := by
    rw [place]
    exact entryIn_eq_ok_iff.mpr ⟨isDirectory, isShort_last ends short, rfl⟩
  have notEmpty : path.last ≠ [] := by
    rw [ends.front_last_eq.2]
    exact ends.ne_nil
  have walked : tree.walk true maxLinks (path.start tree.home) path.steps =
      tree.walk true maxLinks ((path.start tree.home).follow path.front) [path.last] := by
    rw [ends.steps_eq]
    exact (frontWay.canTake (areShort_front ends short)).walk_append fun _ =>
      ⟨Path.nil_notMem_front path, by simp [notEmpty]⟩
  rw [walk_cons_named (isOpen_of_directory isDirectory) named (by simp), looked,
    Location.next_name named, ← place] at walked
  rcases isFree with missing | ⟨old, isFile⟩
  · rw [missing] at walked
    have isSpot : tree.spot path true = .ok (.free (tree.place path)) := by
      simp [spot, ends.faultless, walked]
    simp [writeFile, isSpot, bind, Except.bind, pure, Except.pure]
  · rw [isFile] at walked
    have isSpot : tree.spot path true = .ok (.found (tree.place path)) := by
      simp [spot, ends.faultless, walked, walk]
    simp [writeFile, isSpot, isFile, bind, Except.bind, pure, Except.pure]

end Ends

/-- What a file is written with: a path without a fault, and a way to the directory that it is in. -/
theorem way_of_writeFile {content : Bytes} (noLinks : tree.HasNoLinks) (home : tree.HasHome)
    (inOrder : path.splitOn '/' = front ++ [last]) (speaks : isSilent last = false)
    (written : tree.writeFile path content = .ok after) :
    path.EndsIn front last ∧ AreShort path.names ∧
      tree.HasWay (path.start tree.home) path.names.dropLast := by
  obtain ⟨spot, isSpot, -⟩ := bind_eq_ok_iff.mp written
  obtain ⟨faultless, walked⟩ := spot_ok isSpot
  have ends : path.EndsIn front last := ⟨faultless, inOrder, speaks⟩
  have taken := (walksTo_of_walk noLinks walked).isTaken
  refine ⟨ends, ?_, ?_⟩
  · intro name isName
    rw [← Path.filter_steps] at isName
    exact taken.areShort name (List.mem_of_mem_filter isName)
  · rw [ends.steps_eq] at taken
    exact (goesThrough_front ends).mp (taken.hasWay home)

/-! ### Ways through missing directories -/

/-- A directory that a path names without a name is always there. -/
theorem createEach_of_unnamed (faultless : path.fault? = none) (noNames : path.names = [])
    (isFront : path.front = []) (unnamed : Path.isUnnamed path.last = true) (home : tree.HasHome)
    (around : List Path) : FileAction.createEach path around tree = .ok () tree := by
  have way := home.hasWay_nil path
  have stepped := around_of_way faultless (by simp [isFront, AreShort]) (isFront ▸ way)
  have isThere := createDirectory_unnamed stepped unnamed
  have isDirectory : tree.isDirectory path = true :=
    isDirectory_of_way faultless (by simp [noNames, AreShort]) (noNames ▸ way)
  rw [FileAction.createEach_of_not_missing (Path.ne_nil_of_fault? faultless) (by simp [isThere])]
  simp [FileAction.createOrFind, isThere, isDirectory]

theorem createEach_of_room (noLinks : tree.HasNoLinks) (home : tree.HasHome)
    (ladder : path.IsLadder around) (short : AreShort path.names)
    (room : tree.HasRoom (path.start tree.home) path.names) :
    ∃ after, FileAction.createEach path around tree = .ok () after ∧
      after.HasWay (path.start tree.home) path.names := by
  -- By induction on the ladder: the directories further out are made first.
  induction ladder with
  | nowhere around => exact ⟨tree, FileAction.createEach_nil around tree, home.hasWay_nil []⟩
  | here around =>
      refine ⟨tree, ?_, home.hasWay_nil ['.']⟩
      exact createEach_of_unnamed (by decide) (by decide) (by decide) (by decide) home around
  | root around =>
      refine ⟨tree, ?_, home.hasWay_nil ['/']⟩
      exact createEach_of_unnamed (by decide) (by decide) (by decide) (by decide) home around
  | @step path parent front last others ends sameStart leads ladder ih =>
      rw [leads, Path.start_congr sameStart] at ih
      have nonempty : path ≠ [] := Path.ne_nil_of_fault? ends.faultless
      have outerRoom := room.of_front (List.dropLast_prefix path.names)
      by_cases way : tree.HasWay (path.start tree.home) path.names.dropLast
      · obtain ⟨notMissing, after, made, wayThrough⟩ := createOrFind_of_way ends short home way room
        exact ⟨after, by rw [FileAction.createEach_of_not_missing nonempty notMissing, made], wayThrough⟩
      · have stepped : tree.around path = .error .notFound :=
          around_of_noWay ends.faultless home (areShort_front ends short)
            ((goesThrough_front ends).mpr outerRoom) (fun goes => way ((goesThrough_front ends).mp goes))
        have missing : tree.createDirectory path = .error .notFound := by
          simp [createDirectory, stepped, bind, Except.bind]
        obtain ⟨between, outer, outerWay⟩ :=
          ih (short.mono (List.dropLast_subset _)) outerRoom
        have gains : GainsFiles (fun _ => True) [] tree between := by
          rw [← FileAction.left_of_ok outer]
          exact createEach_gains noLinks fun _ _ _ => trivial
        have stillRoom : between.HasRoom (path.start tree.home) path.names := by
          refine room.mono ?_
          intro place isFree
          rcases gains.others place (by simp) with same | ⟨-, made, -⟩
          · rwa [same]
          · exact Or.inr made
        rw [← gains.sameHome] at outerWay stillRoom ⊢
        obtain ⟨-, after, made, wayThrough⟩ :=
          createOrFind_of_way ends short (gains.hasHome home) outerWay stillRoom
        refine ⟨after, ?_, wayThrough⟩
        rw [FileAction.createEach_of_missing nonempty missing]
        simp only [bind, EStateM.bind, outer, made]

end FileTree

end NameMigration
