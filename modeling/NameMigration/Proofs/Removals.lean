import NameMigration.Proofs.OpenWays
import NameMigration.Sources.Prune

/-!
What a removal takes out of a tree without links: a file, or everything inside a directory. The directory
itself goes last, and only if its path ends with its name and does not lead through what is gone by then.
-/

namespace NameMigration

open Path.Parts (isSilent)

variable {tree : FileTree} {path : Path} {location directory place start : Location} {content : Bytes}
  {front : List Text} {last : Text}

namespace FileTree

theorem isInside_iff : isInside location place = true ↔ location <+: place ∧ place ≠ location := by
  simp [isInside]

/-- What is around a place outside is outside as well. -/
theorem isInside_of_append {names : List Text} (outside : isInside location (place ++ names) = false) :
    isInside location place = false := by
  by_contra inside
  obtain ⟨isAbove, proper⟩ := isInside_iff.mp (by simpa using inside)
  have further : isInside location (place ++ names) = true := by
    refine isInside_iff.mpr ⟨isAbove.trans (List.prefix_append place names), ?_⟩
    intro same
    exact proper (isAbove.eq_of_length_le (same ▸ List.length_append ▸ Nat.le_add_right _ _)).symm
  rw [outside] at further
  exact absurd further (by decide)

/-- Whether the path ends with a name, and none of the names in front of it is that of something inside
the place. -/
def EndsOutside (tree : FileTree) (path : Path) (location : Location) : Prop :=
  Path.isUnnamed path.last = false ∧
    ∀ part name, part ++ [name] <+: path.front → Path.isUnnamed name = false →
      isInside location ((path.start tree.home).follow part ++ [name]) = false

def Loses (tree : FileTree) (path : Path) (place : Location) : Prop :=
  match tree.locate path with
  | .error _ => False
  | .ok (location, .directory) =>
      isInside location place = true ∧ (tree.get? place).isSome ∨
        place = location ∧ tree.EndsOutside path location
  | .ok (location, _) => place = location

theorem HasNoLinks.erase (noLinks : tree.HasNoLinks) (gone : Location → Bool) :
    (tree.erase gone).HasNoLinks := by
  intro location target isLink
  by_cases kept : gone location = false
  · exact noLinks location target (get?_erase_of_not tree kept ▸ isLink)
  · by_cases isRoot : location = []
    · simp [isRoot] at isLink
    · rw [get?_erase_of_gone tree (by simpa using kept) isRoot] at isLink
      simp at isLink

/-! ### What a path leads to -/

theorem locate_ne_link (noLinks : tree.HasNoLinks) {target : Path} :
    tree.locate path ≠ .ok (location, .link target) := by
  intro located
  obtain ⟨-, isLink⟩ := spot_of_locate located
  cases found : tree.get? location with
  | none => simp [found] at isLink
  | some entry => exact noLinks location target (by simpa [found] using isLink)

section Located

variable {entry : FileEntry} (noLinks : tree.HasNoLinks) (located : tree.locate path = .ok (location, entry))

include noLinks located

theorem canTake_of_located : tree.CanTake (path.start tree.home) (path.front ++ [path.last]) :=
  (canTake_of_locate noLinks located).of_front
    (Path.front_last_prefix (Path.ne_nil_of_fault? (fault?_of_locate located)))

theorem around_of_located : tree.around path = .ok ((path.start tree.home).follow path.front) :=
  around_of_canTake (fault?_of_locate located)
    ((canTake_of_locate noLinks located).front_dot (Path.ne_nil_of_fault? (fault?_of_locate located)))

/-- A path that ends with a name leads to an entry of the directory in front of it. -/
theorem entryIn_of_located (named : Path.isUnnamed path.last = false) :
    (path.start tree.home).follow path.front ++ [path.last] = location ∧ tree.get? location = some entry ∧
      tree.entryIn ((path.start tree.home).follow path.front) path.last = .ok (some entry) := by
  obtain ⟨isPlace, isEntry⟩ := place_of_locate noLinks located
  rw [place_eq_front tree named] at isPlace
  obtain ⟨isDirectory, isShort, other, found, -⟩ :=
    (canTake_of_located noLinks located).allows_last.named named
  rw [isPlace] at found
  rw [found, Option.getD_some] at isEntry
  exact ⟨isPlace, isEntry ▸ found, entryIn_eq_ok_iff.mpr ⟨isDirectory, isShort, isPlace ▸ isEntry ▸ found⟩⟩

/-- Behind a slash or a step without a name there is no file. -/
theorem directory_of_unnamed (room : tree.HasHomeRoom)
    (unnamed : path.getLast? = some '/' ∨ Path.isUnnamed path.last = true) : entry = .directory := by
  obtain ⟨isPlace, isEntry⟩ := place_of_locate noLinks located
  have isOpen : tree.isOpen location = true := by
    rw [← isPlace]
    rcases unnamed with slashed | unnamed
    · have slashedSteps : path.steps.getLast? = some [] := by simp [Path.steps, slashed]
      have walksTo := walksTo_of_walk noLinks (spot_ok (spot_of_locate located).1).2
      rw [place_eq]
      exact (walksTo.isOpen_of_slash slashedSteps).2
    · refine (canTake_of_located noLinks located).isOpen_above (fun _ => isOpen_outside tree path) ?_
      rw [place, ← Path.follow_front_last]
      exact Location.next_unnamed unnamed
  rw [← isEntry]
  rcases room.get?_of_isOpen isOpen with missing | isDirectory
  · simp [missing]
  · simp [isDirectory]

end Located

/-! ### Files -/

theorem removeFile_of_locate (noLinks : tree.HasNoLinks) (room : tree.HasHomeRoom)
    (located : tree.locate path = .ok (location, .file content)) :
    tree.get? location = some (.file content) ∧ tree.removeFile path = .ok (tree.erase (· = location)) := by
  have notUnnamed : ¬(path.getLast? = some '/' ∨ Path.isUnnamed path.last = true) := by
    intro unnamed
    simpa using directory_of_unnamed noLinks located room unnamed
  obtain ⟨notSlashed, named⟩ := not_or.mp notUnnamed
  obtain ⟨rfl, found, looked⟩ := entryIn_of_located noLinks located (by simpa using named)
  refine ⟨found, ?_⟩
  simp only [removeFile, around_of_located noLinks located, looked, named, notSlashed, bind, Except.bind,
    Bool.false_eq_true, if_false]
  rfl

/-! ### Directories -/

theorem findUnfollowed_of_locate (noLinks : tree.HasNoLinks) {entry : FileEntry}
    (located : tree.locate path = .ok (location, entry)) : tree.findUnfollowed path = .ok entry := by
  simp only [findUnfollowed, around_of_located noLinks located, bind, Except.bind]
  split
  · simp [find, located, Except.map]
  · rename_i named
    obtain ⟨-, -, looked⟩ := entryIn_of_located noLinks located (by simpa using (not_or.mp named).2)
    rw [looked]
    rfl

/-- The tree without what is inside the directory. -/
theorem get?_emptied (location place : Location) :
    (tree.erase (isInside location)).get? place =
      if isInside location place then none else tree.get? place := by
  split
  · rename_i inside
    refine get?_erase_of_gone tree inside ?_
    rintro rfl
    obtain ⟨isPrefix, different⟩ := isInside_iff.mp inside
    exact different (List.prefix_nil.mp isPrefix).symm
  · rename_i outside
    exact get?_erase_of_not tree (by simpa using outside)

theorem inside_emptied (location : Location) :
    (tree.erase (isInside location)).inside location = [] := by
  simp [inside, erase]

theorem emptied_isOpen (isOpen : tree.isOpen place = true) (outside : isInside location place = false) :
    (tree.erase (isInside location)).isOpen place = true := by
  rw [FileTree.isOpen, home_erase, get?_emptied, outside]
  exact isOpen

/-- Steps are still taken when something has been emptied, if they name nothing that was inside of it. -/
theorem CanTake.emptied (can : tree.CanTake (path.start tree.home) (front ++ [['.']]))
    (outside : ∀ part name, part ++ [name] <+: front → Path.isUnnamed name = false →
      isInside location ((path.start tree.home).follow part ++ [name]) = false) :
    (tree.erase (isInside location)).CanTake (path.start tree.home) (front ++ [['.']]) := by
  intro part step isPart
  obtain ⟨isOpen, ofNamed⟩ := can part step isPart
  have cases := List.prefix_concat_iff.mp isPart
  have inFront : part <+: front := by
    rcases cases with whole | isFront
    · exact (List.append_inj' whole rfl).1 ▸ List.prefix_rfl
    · exact (List.prefix_append part [step]).trans isFront
  refine ⟨?_, ?_⟩
  · rcases Location.follow_visits List.prefix_rfl with isStart | ⟨before, name, isBefore, named, entered⟩
    · exact isOpen_outside (tree.erase (isInside location)) path isStart
    · refine emptied_isOpen isOpen ?_
      rw [← entered]
      exact outside before name (isBefore.trans inFront) named
  · intro named
    obtain ⟨isDirectory, isShort, entry, found, noLink⟩ := ofNamed named
    have isFront : part ++ [step] <+: front := by
      refine cases.resolve_left ?_
      intro whole
      obtain rfl := List.singleton_inj.mp (List.append_inj' whole rfl).2
      exact absurd named (by decide)
    have outsideStep := outside part step isFront named
    refine ⟨?_, isShort, entry, ?_, noLink⟩
    · rw [get?_emptied, isInside_of_append outsideStep, isDirectory]
      rfl
    · rw [get?_emptied, outsideStep, found]
      rfl

theorem removeTree_left (noLinks : tree.HasNoLinks)
    (located : tree.locate path = .ok (location, .directory)) :
    (FileAction.removeTree path).left tree =
      match (tree.erase (isInside location)).removeDirectory path with
      | .ok removed => removed
      | .error _ => tree.erase (isInside location) := by
  simp only [FileAction.left, FileAction.removeTree, findUnfollowed_of_locate noLinks located, located]
  cases (tree.erase (isInside location)).removeDirectory path with
  | ok removed => rfl
  | error fault => cases fault <;> rfl

theorem removeDirectory_of_endsOutside (noLinks : tree.HasNoLinks)
    (located : tree.locate path = .ok (location, .directory)) (outside : tree.EndsOutside path location) :
    location ≠ [] ∧ (tree.get? location).isSome ∧ (tree.erase (isInside location)).removeDirectory path =
      .ok ((tree.erase (isInside location)).erase (· = location)) := by
  obtain ⟨named, outside⟩ := outside
  have nonempty := Path.ne_nil_of_fault? (fault?_of_locate located)
  have can := ((canTake_of_locate noLinks located).front_dot nonempty).emptied outside
  have stepped : (tree.erase (isInside location)).around path =
      .ok ((path.start tree.home).follow path.front) :=
    around_of_canTake (fault?_of_locate located) can
  obtain ⟨isPlace, found, -⟩ := entryIn_of_located noLinks located named
  obtain ⟨isDirectory, isShort, -⟩ := (canTake_of_located noLinks located).allows_last.named named
  have outsideItself : isInside location location = false := by simp [isInside]
  have outsideLast : isInside location ((path.start tree.home).follow path.front ++ [path.last]) = false := by
    rw [isPlace, outsideItself]
  have outsideAround := isInside_of_append outsideLast
  have looked : (tree.erase (isInside location)).entryIn ((path.start tree.home).follow path.front) path.last =
      .ok (some .directory) := by
    refine entryIn_eq_ok_iff.mpr ⟨?_, isShort, ?_⟩
    · rw [get?_emptied, outsideAround, isDirectory]
      rfl
    · rw [isPlace, get?_emptied, outsideItself, found]
      rfl
  refine ⟨by simp [← isPlace], by simp [found], ?_⟩
  obtain ⟨⟨notEmpty, notDot⟩, notParent⟩ := by simpa [Path.isUnnamed, isSilent] using named
  simp only [removeDirectory, stepped, looked, bind, Except.bind, notEmpty, notDot, notParent, if_false, isPlace,
    inside_emptied, if_true]
  rfl

theorem removeDirectory_stays (noLinks : tree.HasNoLinks)
    (stays : ¬tree.EndsOutside path location) :
    ∃ fault, (tree.erase (isInside location)).removeDirectory path = .error fault := by
  cases stepped : (tree.erase (isInside location)).around path with
  | error fault => exact ⟨fault, by simp [removeDirectory, stepped, bind, Except.bind]⟩
  | ok directory =>
      obtain ⟨-, can, -⟩ := around_ok (noLinks.erase _) stepped
      have unnamed : Path.isUnnamed path.last = true := by
        by_contra named
        refine stays ⟨by simpa using named, ?_⟩
        intro part name isPart nameNamed
        obtain ⟨-, -, entry, found, -⟩ :=
          (can part name (isPart.trans (List.prefix_append _ _))).named nameNamed
        by_contra inside
        rw [home_erase, get?_emptied, if_pos (by simpa using inside)] at found
        simp at found
      obtain (isEmpty | isDot) | isParent :
          (path.last = [] ∨ path.last = ['.']) ∨ path.last = ['.', '.'] := by
        simpa [Path.isUnnamed, isSilent] using unnamed
      · exact ⟨.busy, by simp only [removeDirectory, stepped, isEmpty, bind, Except.bind, if_true]; rfl⟩
      · exact ⟨.invalidArgument, by simp only [removeDirectory, stepped, isDot, bind, Except.bind]; rfl⟩
      · exact ⟨.notEmpty, by simp only [removeDirectory, stepped, isParent, bind, Except.bind]; rfl⟩

end FileTree

/-! ### Pruning a path -/

open FileTree

theorem pruneFile_left (path : Path) (tree : FileTree) :
    (pruneFile path).left tree =
      match tree.removeFile path with
      | .ok removed => removed
      | .error _ => tree := by
  rw [pruneFile, FileAction.left_bind_pure, FileAction.left_within, FileAction.left_changing]
  cases tree.removeFile path <;> rfl

theorem prunePath_left (path : Path) (tree : FileTree) :
    (prunePath path).left tree =
      if tree.isDirectory path then (FileAction.removeTree path).left tree
      else if tree.isFile path then (pruneFile path).left tree
      else tree := by
  have got : (get : FileAction Fault FileTree) tree = .ok tree tree := rfl
  rw [prunePath, FileAction.left_bind, got]
  simp only
  split
  · rw [FileAction.left_bind_pure, FileAction.left_within]
  · split <;> rfl

/-- Pruning a path takes away what it loses, and nothing else. -/
theorem get?_prunePath_left (noLinks : tree.HasNoLinks) (room : tree.HasHomeRoom) (path : Path)
    (place : Location) :
    (tree.Loses path place → (tree.get? place).isSome ∧ ((prunePath path).left tree).get? place = none) ∧
      (¬tree.Loses path place → ((prunePath path).left tree).get? place = tree.get? place) := by
  rw [prunePath_left, Loses]
  cases located : tree.locate path with
  | error fault => simp [isDirectory, isFile, find, located, Except.map]
  | ok found =>
      obtain ⟨location, entry⟩ := found
      cases entry with
      | link target => exact absurd located (locate_ne_link noLinks)
      | file content =>
          obtain ⟨isThere, removed⟩ := removeFile_of_locate noLinks room located
          have inside : location ≠ [] := by
            rintro rfl
            simp at isThere
          have notDirectory : tree.isDirectory path = false := by
            simp [isDirectory, find, located, Except.map]
          have isFile : tree.isFile path = true := by simp [isFile, find, located, Except.map]
          simp only [notDirectory, isFile, Bool.false_eq_true, if_false, if_true, pruneFile_left, removed]
          constructor
          · rintro rfl
            exact ⟨by simp [isThere], get?_erase_of_gone tree (by simp) inside⟩
          · intro different
            exact get?_erase_of_not tree (by simpa using different)
      | directory =>
          have isDirectory : tree.isDirectory path = true := by
            simp [isDirectory, find, located, Except.map]
          rw [if_pos isDirectory, removeTree_left noLinks located]
          have emptied (kept : ¬(isInside location place = true ∧ (tree.get? place).isSome)) :
              (tree.erase (isInside location)).get? place = tree.get? place := by
            rw [get?_emptied]
            split
            · rename_i inside
              exact (Option.not_isSome_iff_eq_none.mp fun isThere => kept ⟨inside, isThere⟩).symm
            · rfl
          simp only
          by_cases endsOutside : tree.EndsOutside path location
          · obtain ⟨inside, isThere, removed⟩ := removeDirectory_of_endsOutside noLinks located endsOutside
            simp only [removed, endsOutside, and_true]
            constructor
            · rintro (⟨isInside, isThereAt⟩ | rfl)
              · refine ⟨isThereAt, ?_⟩
                rw [get?_erase_of_not _ (by simp [(isInside_iff.mp isInside).2]), get?_emptied, if_pos isInside]
              · exact ⟨isThere, get?_erase_of_gone _ (by simp) inside⟩
            · intro kept
              obtain ⟨notInside, different⟩ := not_or.mp kept
              rw [get?_erase_of_not _ (by simpa using different), emptied notInside]
          · obtain ⟨fault, stays⟩ := removeDirectory_stays noLinks endsOutside
            simp only [stays, endsOutside, and_false, or_false]
            refine ⟨?_, emptied⟩
            rintro ⟨inside, isThereAt⟩
            exact ⟨isThereAt, by rw [get?_emptied, if_pos inside]⟩

end NameMigration
