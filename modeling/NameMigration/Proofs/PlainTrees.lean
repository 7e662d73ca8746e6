import NameMigration.Proofs.PathParts
import NameMigration.Proofs.PlainWalks
import NameMigration.Sources.Unit

/-!
What the changes of a run do to trees without links. A change that succeeds has found its place where the
names of its path lead, and creating directories only adds directories on the way to a place.
-/

namespace NameMigration

open Path.Parts (isSilent)

namespace FileTree

variable {tree before after : FileTree} {location : Location} {path : Path} {content : Bytes}

structure IsWellFormed (tree : FileTree) : Prop where
  named : ∀ location entry, tree.get? location = some entry → ∀ name ∈ location, IsFileName name
  above : ∀ location name, (tree.get? (location ++ [name])).isSome → tree.get? location = some .directory
  homed : tree.get? tree.home = some .directory

/-! ### Single changes -/

theorem exists_spot_of_writeFile (written : tree.writeFile path content = .ok after) :
    ∃ spot, tree.spot path true = .ok spot ∧ spot.location ≠ [] ∧
      (tree.get? spot.location = none ∨ ∃ old, tree.get? spot.location = some (.file old)) ∧
      after = tree.put spot.location (.file content) := by
  obtain ⟨spot, isSpot, written⟩ := bind_eq_ok_iff.mp written
  refine ⟨spot, isSpot, ?_⟩
  cases spot with
  | free location =>
      obtain ⟨inside, missing⟩ := get?_of_walk_free (spot_ok isSpot).2
      exact ⟨inside, Or.inl missing, (pure_eq_ok_iff.mp written).symm⟩
  | found location =>
      simp only at written
      split at written
      · rename_i old isFile
        refine ⟨?_, Or.inr ⟨old, isFile⟩, (pure_eq_ok_iff.mp written).symm⟩
        rintro rfl
        simp at isFile
      · exact absurd written (throw_ne_ok _)

theorem writeFile_ok (noLinks : tree.HasNoLinks) (written : tree.writeFile path content = .ok after) :
    tree.place path ≠ [] ∧
      (tree.get? (tree.place path) = none ∨ ∃ old, tree.get? (tree.place path) = some (.file old)) ∧
      after = tree.put (tree.place path) (.file content) := by
  obtain ⟨spot, isSpot, changed⟩ := exists_spot_of_writeFile written
  rwa [← location_of_spot noLinks isSpot]

/-- Nothing is written to a path that does not end with a name. -/
theorem writeFile_unnamed (noLinks : tree.HasNoLinks) (home : tree.HasHome)
    (unnamed : path = [] ∨ path.getLast? = some '/') :
    tree.writeFile path content ≠ .ok after := by
  intro written
  obtain ⟨spot, isSpot, written⟩ := bind_eq_ok_iff.mp written
  obtain ⟨faultless, walked⟩ := spot_ok isSpot
  have slashed := unnamed.resolve_left (Path.ne_nil_of_fault? faultless)
  have slashedSteps : path.steps.getLast? = some [] := by simp [Path.steps, slashed]
  obtain ⟨rfl, isOpen⟩ := (walksTo_of_walk noLinks walked).isOpen_of_slash slashedSteps
  simp only [home.get?_of_isOpen isOpen, throw_ne_ok] at written

theorem createDirectory_ok (noLinks : tree.HasNoLinks) (created : tree.createDirectory path = .ok after) :
    tree.place path ≠ [] ∧ tree.get? (tree.place path) = none ∧
      after = tree.put (tree.place path) .directory := by
  obtain ⟨directory, stepped, created⟩ := bind_eq_ok_iff.mp created
  obtain ⟨-, -, rfl⟩ := around_ok noLinks stepped
  split at created
  · exact absurd created (throw_ne_ok _)
  · rename_i named
    rw [place_eq_front tree (by simpa using named)]
    obtain ⟨found, looked, created⟩ := bind_eq_ok_iff.mp created
    split at created
    · exact absurd created (throw_ne_ok _)
    · rename_i isFree
      obtain ⟨-, -, isFound⟩ := entryIn_eq_ok_iff.mp looked
      refine ⟨by simp, ?_, (pure_eq_ok_iff.mp created).symm⟩
      rw [isFound]
      simpa using isFree

/-! ### New directories and files -/

/-- Whether a tree holds the files, and is apart from them an earlier tree with new directories, all at
places that are accepted. -/
structure GainsFiles (accepts : Location → Prop) (files : List (Location × Bytes))
    (before after : FileTree) : Prop where
  sameHome : after.home = before.home
  holds : ∀ file ∈ files, after.get? file.1 = some (.file file.2)
  others : ∀ location, (∀ file ∈ files, file.1 ≠ location) →
    after.get? location = before.get? location ∨
      before.get? location = none ∧ after.get? location = some .directory ∧ accepts location

namespace GainsFiles

variable {accepts : Location → Prop} {files more : List (Location × Bytes)} {between : FileTree}

theorem refl (accepts : Location → Prop) (tree : FileTree) : GainsFiles accepts [] tree tree :=
  ⟨rfl, by simp, fun _ _ => Or.inl rfl⟩

theorem mono {widely : Location → Prop} (gains : GainsFiles accepts files before after)
    (wider : ∀ location, accepts location → widely location) : GainsFiles widely files before after := by
  refine ⟨gains.sameHome, gains.holds, ?_⟩
  intro location isOther
  rcases gains.others location isOther with same | ⟨missing, made, accepted⟩
  · exact Or.inl same
  · exact Or.inr ⟨missing, made, wider location accepted⟩

/-- What later files replace is not what earlier ones wrote, as long as all places differ. -/
theorem append (first : GainsFiles accepts files before between)
    (second : GainsFiles accepts more between after)
    (apart : ∀ file ∈ files, ∀ later ∈ more, later.1 ≠ file.1) :
    GainsFiles accepts (files ++ more) before after := by
  refine ⟨second.sameHome.trans first.sameHome, ?_, ?_⟩
  · intro file member
    rcases List.mem_append.mp member with inFirst | inSecond
    · have written := first.holds file inFirst
      rcases second.others file.1 (apart file inFirst) with same | ⟨missing, -⟩
      · rw [same, written]
      · rw [written] at missing
        simp at missing
    · exact second.holds file inSecond
  · intro location isOther
    have notFirst := fun file member => isOther file (List.mem_append_left more member)
    have notSecond := fun file member => isOther file (List.mem_append_right files member)
    rcases second.others location notSecond with same | ⟨missing, made, accepted⟩
    · rw [same]
      exact first.others location notFirst
    · rcases first.others location notFirst with same | ⟨_, earlier, _⟩
      · exact Or.inr ⟨same ▸ missing, made, accepted⟩
      · rw [earlier] at missing
        simp at missing

theorem hasNoLinks (gains : GainsFiles accepts files before after) (noLinks : before.HasNoLinks) :
    after.HasNoLinks := by
  intro location target isLink
  by_cases isOther : ∀ file ∈ files, file.1 ≠ location
  · rcases gains.others location isOther with same | ⟨_, made, _⟩
    · exact noLinks location target (same ▸ isLink)
    · rw [made] at isLink
      simp at isLink
  · push Not at isOther
    obtain ⟨file, member, rfl⟩ := isOther
    rw [gains.holds file member] at isLink
    simp at isLink

theorem place_eq (gains : GainsFiles accepts files before after) (path : Path) :
    after.place path = before.place path :=
  place_congr gains.sameHome path

/-- Directories that are there stay. -/
theorem get?_directory (gains : GainsFiles accepts [] before after)
    (isDirectory : before.get? location = some .directory) : after.get? location = some .directory := by
  rcases gains.others location (by simp) with same | ⟨-, made, -⟩
  · rwa [same]
  · exact made

theorem hasHome (gains : GainsFiles accepts [] before after) (home : before.HasHome) : after.HasHome :=
  fun place isAround => gains.get?_directory (home place (gains.sameHome ▸ isAround))

theorem of_put_directory (missing : tree.get? location = none) (inside : location ≠ [])
    (accepted : accepts location) : GainsFiles accepts [] tree (tree.put location .directory) := by
  refine ⟨rfl, by simp, ?_⟩
  intro other _
  by_cases same : other = location
  · subst same
    exact Or.inr ⟨missing, get?_put_self tree _ inside, accepted⟩
  · exact Or.inl (get?_put_of_ne tree _ same)

theorem of_put_file (tree : FileTree) (content : Bytes) (inside : location ≠ []) :
    GainsFiles accepts [(location, content)] tree (tree.put location (.file content)) := by
  refine ⟨rfl, ?_, ?_⟩
  · simp [get?_put_self tree _ inside]
  · intro other isOther
    exact Or.inl (get?_put_of_ne tree _ (Ne.symm (isOther (location, content) (by simp))))

end GainsFiles

end FileTree

def Location.IsOnWay (start : Location) (names : List Text) (location : Location) : Prop :=
  ∃ front behind, names = front ++ behind ∧ behind ≠ [] ∧ start.follow front = location

section Actions

open FileTree

variable {before after : FileTree} {path : Path} {names : List Text}

theorem createDirectory_gains {accepts : Location → Prop} (noLinks : before.HasNoLinks)
    (accepted : before.place path ≠ [] → accepts (before.place path))
    (created : before.createDirectory path = .ok after) : GainsFiles accepts [] before after := by
  obtain ⟨inside, missing, rfl⟩ := createDirectory_ok noLinks created
  exact GainsFiles.of_put_directory missing inside (accepted inside)

/-! ### Creating directories -/

namespace FileAction

variable {around others : List Path} {parent : Path}

def createOrFind (path : Path) : FileAction FileFault Unit := fun tree =>
  match tree.createDirectory path with
  | .ok created => .ok () created
  | .error fault => if tree.isDirectory path then .ok () tree else .error fault tree

theorem createEach_nil (around : List Path) (tree : FileTree) :
    createEach [] around tree = .ok () tree := by
  rw [createEach]
  rfl

theorem createEach_of_missing (nonempty : path ≠ [])
    (missing : before.createDirectory path = .error .notFound) :
    createEach path (parent :: others) before =
      (createEach parent others >>= fun _ => createOrFind path) before := by
  rw [createEach]
  simp only [nonempty, if_false, missing, bind, EStateM.bind, createOrFind]
  cases createEach parent others before with
  | ok _ changed => cases changed.createDirectory path <;> rfl
  | error => rfl

theorem createEach_of_not_missing (nonempty : path ≠ [])
    (notMissing : before.createDirectory path ≠ .error .notFound) :
    createEach path around before = createOrFind path before := by
  rw [createEach]
  simp only [nonempty, if_false, createOrFind]
  cases created : before.createDirectory path with
  | ok changed => rfl
  | error fault => cases fault <;> first | rfl | exact absurd created notMissing

theorem createOrFind_left {Kept : FileTree → FileTree → Prop} (refl : ∀ tree, Kept tree tree)
    (step : ∀ {tree changed : FileTree}, tree.createDirectory path = .ok changed → Kept tree changed)
    (tree : FileTree) : Kept tree ((createOrFind path).left tree) := by
  rw [left, createOrFind]
  cases created : tree.createDirectory path with
  | ok changed => exact step created
  | error fault => cases tree.isDirectory path <;> exact refl tree

/-- What holds between two trees whenever one of the directories is created holds between the tree before
and the one that is left, whether all are created or not. -/
theorem createEach_left (Kept : FileTree → FileTree → Prop) (refl : ∀ tree, Kept tree tree)
    (trans : ∀ {first second third}, Kept first second → Kept second third → Kept first third)
    (step : ∀ place ∈ path :: around, ∀ {tree changed : FileTree},
      tree.createDirectory place = .ok changed → Kept tree changed) (before : FileTree) :
    Kept before ((createEach path around).left before) := by
  have atOnce {path : Path} {around : List Path}
      (step : ∀ {tree changed : FileTree}, tree.createDirectory path = .ok changed → Kept tree changed)
      (noneMissing : path = [] ∨ before.createDirectory path ≠ .error .notFound) :
      Kept before ((createEach path around).left before) := by
    by_cases isEmpty : path = []
    · rw [isEmpty, left_of_ok (createEach_nil around before)]
      exact refl before
    · rw [left_congr (createEach_of_not_missing isEmpty (noneMissing.resolve_left isEmpty))]
      exact createOrFind_left refl step before
  -- By induction on the directories around, as those further out are created first.
  induction around generalizing path with
  | nil =>
      by_cases noneMissing : path = [] ∨ before.createDirectory path ≠ .error .notFound
      · exact atOnce (step path (by simp)) noneMissing
      · rw [not_or, not_not] at noneMissing
        rw [left, createEach]
        simp only [noneMissing, if_false]
        exact refl before
  | cons parent others ih =>
      by_cases noneMissing : path = [] ∨ before.createDirectory path ≠ .error .notFound
      · exact atOnce (step path (by simp)) noneMissing
      · rw [not_or, not_not] at noneMissing
        have outer := ih fun place member => step place (List.mem_cons_of_mem path member)
        rw [left_congr (createEach_of_missing noneMissing.1 noneMissing.2), left_bind]
        cases created : createEach parent others before with
        | ok _ between =>
            rw [left_of_ok created] at outer
            exact trans outer (createOrFind_left refl (step path (by simp)) between)
        | error _ between =>
            rw [left_of_error created] at outer
            exact outer

end FileAction

theorem createDirectory_nil : before.createDirectory [] = .error .notFound := rfl

theorem createEach_gains {accepts : Location → Prop} {around : List Path} (noLinks : before.HasNoLinks)
    (accepted : ∀ place ∈ path :: around, place ≠ [] → accepts (before.place place)) :
    GainsFiles accepts [] before ((FileAction.createEach path around).left before) := by
  refine (FileAction.createEach_left (fun first second => first.HasNoLinks → first.home = before.home →
    GainsFiles accepts [] first second) ?_ ?_ ?_ before) noLinks rfl
  · intro tree _ _
    exact GainsFiles.refl _ tree
  · intro first second third firstGains secondGains plain sameHome
    have gains := firstGains plain sameHome
    exact gains.append (secondGains (gains.hasNoLinks plain) (gains.sameHome.trans sameHome)) (by simp)
  · intro place member tree changed created plain sameHome
    refine createDirectory_gains plain (fun _ => ?_) created
    rw [place_congr sameHome]
    refine accepted place member ?_
    rintro rfl
    simp [createDirectory_nil] at created

def FileTree.Passes (tree : FileTree) (path : Path) (place : Location) : Prop :=
  ∃ front, front <+: path.names ∧ (path.start tree.home).follow front = place

section Passes

variable {tree : FileTree} {around : Path} {place : Location}

theorem passes_place (tree : FileTree) (path : Path) : tree.Passes path (tree.place path) :=
  ⟨path.names, List.prefix_rfl, rfl⟩

theorem passes_of_isOnWay (onWay : Location.IsOnWay (path.start tree.home) path.names place) :
    tree.Passes path place := by
  obtain ⟨front, behind, inOrder, -, followed⟩ := onWay
  exact ⟨front, ⟨behind, inOrder.symm⟩, followed⟩

/-- The way to a directory around what the path leads to is a front of the path's way. -/
theorem FileTree.Passes.isOnWay (passes : tree.Passes around place) (isAround : around ∈ path.ancestors)
    (nonempty : around ≠ []) : Location.IsOnWay (path.start tree.home) path.names place := by
  obtain ⟨front, ⟨rest, aroundNames⟩, followed⟩ := passes
  obtain ⟨sameStart, behind, further, inOrder⟩ := Path.names_of_mem_ancestors isAround nonempty
  rw [Path.start_congr sameStart] at followed
  refine ⟨front, rest ++ behind, ?_, List.append_ne_nil_of_right_ne_nil rest further, followed⟩
  rw [inOrder, ← aroundNames, List.append_assoc]

theorem passes_of_mem_ancestors (tree : FileTree) (isAround : around ∈ path.ancestors) :
    tree.Passes path (tree.place around) := by
  by_cases isEmpty : around = []
  · subst isEmpty
    refine ⟨[], List.nil_prefix, ?_⟩
    rw [Path.start, Path.isAbsolute_of_nil_mem_ancestors isAround]
    rfl
  · exact passes_of_isOnWay ((passes_place tree around).isOnWay isAround isEmpty)

end Passes

theorem createDirectories_gains (noLinks : before.HasNoLinks) (path : Path) :
    GainsFiles (before.Passes path) [] before ((FileAction.createDirectories path).left before) := by
  refine createEach_gains noLinks ?_
  intro around member nonempty
  rcases List.mem_cons.mp member with rfl | isAround
  · exact passes_place before around
  · exact passes_of_mem_ancestors before isAround

theorem createParent_gains (noLinks : before.HasNoLinks) (path : Path) :
    GainsFiles (Location.IsOnWay (path.start before.home) path.names) [] before
      ((createParent path).left before) := by
  unfold createParent
  cases isParent : path.parent? with
  | none => exact GainsFiles.refl _ _
  | some parent =>
      simp only [FileAction.left_within]
      by_cases isEmpty : parent = []
      · rw [isEmpty, FileAction.createDirectories, FileAction.left_of_ok (FileAction.createEach_nil _ _)]
        exact GainsFiles.refl _ _
      · exact (createDirectories_gains noLinks parent).mono fun place passes =>
          passes.isOnWay (List.mem_of_mem_head? isParent) isEmpty

/-- A write that fails leaves at most directories behind. -/
theorem writeLines_left (path : Path) (lines : List Text) (before : FileTree) :
    writeLines path lines before = .ok () ((writeLines path lines).left before) ∨
      (writeLines path lines).left before = (createParent path).left before := by
  have inOrder : writeLines path lines = createParent path >>= fun _ =>
    (FileAction.changing (·.writeFile path (Text.ofLines lines).utf8)).within (.file .creating path) := rfl
  rw [inOrder, FileAction.left_bind]
  cases created : createParent path before with
  | error fault between => simp [FileAction.left_of_error created]
  | ok _ between =>
      simp only [FileAction.left_of_ok created, FileAction.left_within, bind, EStateM.bind, created]
      cases written : between.writeFile path (Text.ofLines lines).utf8 <;>
        simp [FileAction.left, FileAction.within, FileAction.changing, written]

theorem writeLines_ok_iff {lines : List Text} :
    writeLines path lines before = .ok () after ↔ ∃ between, createParent path before = .ok () between ∧
      between.writeFile path (Text.ofLines lines).utf8 = .ok after := by
  have inOrder : writeLines path lines = createParent path >>= fun _ =>
    (FileAction.changing (·.writeFile path (Text.ofLines lines).utf8)).within (.file .creating path) := rfl
  simp only [inOrder, FileAction.bind_eq_ok_iff, FileAction.within_eq_ok_iff,
    FileAction.changing_eq_ok_iff]
  exact ⟨fun ⟨_, between, both⟩ => ⟨between, both⟩, fun ⟨between, both⟩ => ⟨(), between, both⟩⟩

theorem writeLines_ok {lines : List Text} (noLinks : before.HasNoLinks)
    (written : writeLines path lines before = .ok () after) :
    ∃ between, createParent path before = .ok () between ∧
      GainsFiles (Location.IsOnWay (path.start before.home) path.names) [] before between ∧
      between.writeFile path (Text.ofLines lines).utf8 = .ok after := by
  obtain ⟨between, created, written⟩ := writeLines_ok_iff.mp written
  have gains := createParent_gains noLinks path
  rw [FileAction.left_of_ok created] at gains
  exact ⟨between, created, gains, written⟩

theorem writeLines_gains {lines : List Text} (noLinks : before.HasNoLinks)
    (written : writeLines path lines before = .ok () after) :
    GainsFiles (Location.IsOnWay (path.start before.home) path.names)
      [(before.place path, (Text.ofLines lines).utf8)] before after := by
  obtain ⟨between, -, gains, written⟩ := writeLines_ok noLinks written
  obtain ⟨inside, -, rfl⟩ := writeFile_ok (gains.hasNoLinks noLinks) written
  rw [gains.place_eq] at inside ⊢
  exact gains.append (GainsFiles.of_put_file between _ inside) (by simp)

theorem writeLines_unnamed {lines : List Text} (noLinks : before.HasNoLinks) (home : before.HasHome)
    (unnamed : path = [] ∨ path.getLast? = some '/') :
    writeLines path lines before ≠ .ok () after := by
  intro written
  obtain ⟨between, -, gains, written⟩ := writeLines_ok noLinks written
  exact writeFile_unnamed (gains.hasNoLinks noLinks) (gains.hasHome home) unnamed written

end Actions

end NameMigration
