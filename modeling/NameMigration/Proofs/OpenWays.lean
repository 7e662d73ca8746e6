import NameMigration.Proofs.PlainTrees

/-!
When a way through a tree without links can be taken. Steps lead somewhere if every place on their way is a
directory, and a walk that succeeds has taken them. Where every place is a directory or free, a walk ends
at the first free one.
-/

namespace NameMigration

open Path.Parts (isSilent)

namespace Location

variable {start above : Location} {accepts : Location → Prop} {steps front : List Text} {last : Text}

/-- Every place on the way to where steps lead has been entered by its name, but for those around the
start. -/
theorem follow_visits (isAbove : above <+: start.follow steps) :
    above <+: start ∨ ∃ front name, front ++ [name] <+: steps ∧ Path.isUnnamed name = false ∧
      start.follow front ++ [name] = above := by
  induction steps using List.reverseRecOn with
  | nil => exact Or.inl isAbove
  | append_singleton front last ih =>
      have later (isAbove : above <+: start.follow front) :
          above <+: start ∨ ∃ part name, part ++ [name] <+: front ++ [last] ∧ Path.isUnnamed name = false ∧
            start.follow part ++ [name] = above := by
        refine (ih isAbove).imp_right ?_
        rintro ⟨part, name, isPart, entered⟩
        exact ⟨part, name, isPart.trans (List.prefix_append front [last]), entered⟩
      rw [follow_concat] at isAbove
      cases named : Path.isUnnamed last with
      | true => exact later (isAbove.trans (next_unnamed named))
      | false =>
          rw [next_name named] at isAbove
          rcases List.prefix_concat_iff.mp isAbove with rfl | isAbove
          · exact Or.inr ⟨front, last, List.prefix_rfl, named, rfl⟩
          · exact later isAbove

def GoesThrough (accepts : Location → Prop) (start : Location) (steps : List Text) : Prop :=
  ∀ front, front <+: steps → accepts (start.follow front)

namespace GoesThrough

theorem nil (accepted : accepts start) : GoesThrough accepts start [] := by
  intro front isFront
  obtain rfl := List.prefix_nil.mp isFront
  exact accepted

theorem of_front (goes : GoesThrough accepts start steps) (isFront : front <+: steps) :
    GoesThrough accepts start front :=
  fun part isPart => goes part (isPart.trans isFront)

theorem mono {widely : Location → Prop} (goes : GoesThrough accepts start steps)
    (wider : ∀ place, accepts place → widely place) : GoesThrough widely start steps :=
  fun front isFront => wider _ (goes front isFront)

theorem accepts_end (goes : GoesThrough accepts start steps) : accepts (start.follow steps) :=
  goes steps List.prefix_rfl

theorem concat (goes : GoesThrough accepts start front) (accepted : accepts (start.follow (front ++ [last]))) :
    GoesThrough accepts start (front ++ [last]) := by
  intro part isPart
  rcases List.prefix_concat_iff.mp isPart with rfl | isPart
  · exact accepted
  · exact goes part isPart

theorem of_above (goes : GoesThrough accepts start steps)
    (outside : ∀ place, place <+: start → accepts place) (isAbove : above <+: start.follow steps) :
    accepts above := by
  rcases follow_visits isAbove with isOutside | ⟨front, name, isFront, named, rfl⟩
  · exact outside above isOutside
  · rw [← next_name named, ← follow_concat]
    exact goes _ isFront

/-- A step that is not to a name leads to a place that was already on the way. -/
theorem concat_of_unnamed (goes : GoesThrough accepts start front)
    (outside : ∀ place, place <+: start → accepts place) (unnamed : Path.isUnnamed last = true) :
    GoesThrough accepts start (front ++ [last]) := by
  refine goes.concat (goes.of_above outside ?_)
  rw [follow_concat]
  exact next_unnamed unnamed

end GoesThrough

theorem goesThrough_filter :
    GoesThrough accepts start (steps.filter (!isSilent ·)) ↔ GoesThrough accepts start steps := by
  constructor
  · intro goes front isFront
    rw [← follow_filter]
    exact goes _ (isFront.filter _)
  · rintro goes part ⟨behind, parts⟩
    obtain ⟨front, others, rfl, rfl, -⟩ := List.filter_eq_append_iff.mp parts.symm
    rw [follow_filter]
    exact goes front (List.prefix_append front others)

theorem GoesThrough.of_names {path : Path} (goes : GoesThrough accepts start path.names) :
    GoesThrough accepts start path.steps := by
  rw [← Path.filter_steps] at goes
  exact goesThrough_filter.mp goes

end Location

def AreShort (names : List Text) : Prop :=
  ∀ name ∈ names, name.utf8Length ≤ 255

theorem AreShort.mono {names fewer : List Text} (short : AreShort names) (subset : fewer ⊆ names) :
    AreShort fewer :=
  fun name member => short name (subset member)

theorem utf8Length_of_unnamed {step : Text} (unnamed : Path.isUnnamed step = true) :
    step.utf8Length ≤ 255 := by
  obtain (rfl | rfl) | rfl : (step = [] ∨ step = ['.']) ∨ step = ['.', '.'] := by
    simpa [Path.isUnnamed, isSilent] using unnamed
  all_goals decide

theorem AreShort.of_filter {steps : List Text} (short : AreShort (steps.filter (!isSilent ·))) :
    AreShort steps := by
  intro step member
  by_cases silent : isSilent step = true
  · exact utf8Length_of_unnamed (by simp [Path.isUnnamed, silent])
  · exact short step (List.mem_filter.mpr ⟨member, by simp [silent]⟩)

namespace FileTree

variable {tree : FileTree} {start : Location} {steps front rest : List Text} {last : Text} {path : Path}

def HasWay (tree : FileTree) : Location → List Text → Prop :=
  Location.GoesThrough fun place => tree.get? place = some .directory

def HasRoom (tree : FileTree) : Location → List Text → Prop :=
  Location.GoesThrough fun place => tree.get? place = none ∨ tree.get? place = some .directory

/-- There are only directories around the start of a path. -/
theorem HasHome.outside (home : tree.HasHome) (path : Path) (place : Location)
    (isAround : place <+: path.start tree.home) : tree.get? place = some .directory := by
  unfold Path.start at isAround
  split at isAround
  · obtain rfl := List.prefix_nil.mp isAround
    rfl
  · exact home place isAround

theorem HasHome.hasWay_nil (home : tree.HasHome) (path : Path) : tree.HasWay (path.start tree.home) [] :=
  .nil (home.outside path _ List.prefix_rfl)

theorem isOpen_outside (tree : FileTree) (path : Path) {place : Location}
    (isAround : place <+: path.start tree.home) : tree.isOpen place = true := by
  unfold Path.start at isAround
  split at isAround
  · obtain rfl := List.prefix_nil.mp isAround
    exact isOpen_of_directory rfl
  · simp [isOpen, isAround]

/-! ### Walks -/

theorem HasWay.canTake (way : tree.HasWay start steps) (short : AreShort steps) :
    tree.CanTake start steps := by
  intro front step isFront
  have isDirectory : tree.get? (start.follow front) = some .directory :=
    way front ((List.prefix_append front [step]).trans isFront)
  refine ⟨isOpen_of_directory isDirectory, ?_⟩
  intro named
  have isThere : tree.get? (start.follow (front ++ [step])) = some .directory := way _ isFront
  rw [Location.follow_concat, Location.next_name named] at isThere
  exact ⟨isDirectory, short step (isFront.subset (by simp)), .directory, isThere, by simp⟩

/-- Whether the steps are short and all but the last one lead from one open place to the next. -/
def IsTaken (tree : FileTree) (start : Location) (steps : List Text) : Prop :=
  ∀ front last, front ++ [last] <+: steps →
    tree.isOpen (start.follow front) = true ∧ last.utf8Length ≤ 255

/-- What lies above a place that steps go on from is open as well. -/
theorem CanTake.isOpen_above (can : tree.CanTake start (front ++ [last]))
    (outside : ∀ place, place <+: start → tree.isOpen place = true) {place : Location}
    (isAbove : place <+: start.follow front) : tree.isOpen place = true := by
  rcases Location.follow_visits isAbove with isOutside | ⟨part, name, ⟨behind, rfl⟩, named, rfl⟩
  · exact outside place isOutside
  · rw [← Location.next_name named, ← Location.follow_concat]
    cases behind with
    | nil => exact (can _ last (by simp)).isOpen
    | cons step others => exact (can _ step ⟨others ++ [last], by simp⟩).isOpen

theorem CanTake.isTaken (can : tree.CanTake start steps) : tree.IsTaken start steps := by
  intro front last isFront
  obtain ⟨isOpen, ofNamed⟩ := can front last isFront
  refine ⟨isOpen, ?_⟩
  cases named : Path.isUnnamed last with
  | true => exact utf8Length_of_unnamed named
  | false => exact (ofNamed named).2.1

theorem WalksTo.isTaken {spot : Spot} (walksTo : tree.WalksTo start steps spot) :
    tree.IsTaken start steps := by
  cases walksTo with
  | found can => exact can.isTaken
  | free can isNew =>
      intro part step isPart
      rcases List.prefix_concat_iff.mp isPart with whole | isPart
      · obtain ⟨rfl, same⟩ := List.append_inj' whole rfl
        obtain rfl := List.singleton_inj.mp same
        exact ⟨isOpen_of_directory isNew.isDirectory, isNew.isShort⟩
      · exact can.isTaken part step isPart

theorem IsTaken.areShort (taken : tree.IsTaken start steps) : AreShort steps := by
  intro name member
  obtain ⟨front, behind, rfl⟩ := List.append_of_mem member
  exact (taken front name ⟨behind, by simp⟩).2

theorem IsTaken.hasWay (taken : tree.IsTaken start (front ++ [last])) (home : tree.HasHome) :
    tree.HasWay start front := by
  rintro part ⟨behind, rfl⟩
  refine home.get?_of_isOpen ?_
  cases behind with
  | nil => exact (taken part last (by simp)).1
  | cons next others => exact (taken part next ⟨others ++ [last], by simp⟩).1

theorem CanTake.isSome_end (can : tree.CanTake start steps) (home : tree.HasHome)
    (outside : ∀ place, place <+: start → tree.get? place = some .directory) :
    (tree.get? (start.follow steps)).isSome := by
  rcases List.eq_nil_or_concat steps with rfl | ⟨front, last, rfl⟩
  · simp [outside start List.prefix_rfl]
  · rw [List.concat_eq_append] at can ⊢
    cases named : Path.isUnnamed last with
    | true =>
        have way := (can.isTaken.hasWay home).concat_of_unnamed outside named
        rw [show tree.get? _ = some .directory from way.accepts_end]
        rfl
    | false =>
        obtain ⟨-, -, entry, found, -⟩ := can.allows_last.named named
        rw [Location.follow_concat, Location.next_name named, found]
        rfl

/-- As long as the home is there, what is found is an entry. -/
theorem HasHome.get?_of_locate (home : tree.HasHome) (noLinks : tree.HasNoLinks) {location : Location}
    {entry : FileEntry} (located : tree.locate path = .ok (location, entry)) :
    tree.place path = location ∧ tree.get? location = some entry := by
  obtain ⟨rfl, isEntry⟩ := place_of_locate noLinks located
  have isThere := (canTake_of_locate noLinks located).isSome_end home (home.outside path)
  rw [← place_eq] at isThere
  obtain ⟨found, isFound⟩ := Option.isSome_iff_exists.mp isThere
  rw [isFound, Option.getD_some] at isEntry
  exact ⟨rfl, isEntry ▸ isFound⟩

/-- Steps for which there is only room go through a first free place, to which a name leads. -/
theorem HasRoom.exists_missing (room : tree.HasRoom start steps)
    (outside : ∀ place, place <+: start → tree.get? place = some .directory)
    (noWay : ¬tree.HasWay start steps) :
    ∃ front step rest, steps = front ++ step :: rest ∧ tree.HasWay start front ∧
      Path.isUnnamed step = false ∧ tree.get? (start.follow front ++ [step]) = none := by
  induction steps using List.reverseRecOn with
  | nil => exact absurd (Location.GoesThrough.nil (outside start List.prefix_rfl)) noWay
  | append_singleton front last ih =>
      by_cases way : tree.HasWay start front
      · rcases room.accepts_end with isFree | isDirectory
        · have named : Path.isUnnamed last = false := by
            by_contra unnamed
            exact noWay (way.concat_of_unnamed outside (by simpa using unnamed))
          rw [Location.follow_concat, Location.next_name named] at isFree
          exact ⟨front, last, [], rfl, way, named, isFree⟩
        · exact absurd (way.concat isDirectory) noWay
      · obtain ⟨part, step, rest, rfl, partWay, isMissing⟩ :=
          ih (room.of_front (List.prefix_append front [last])) way
        exact ⟨part, step, rest ++ [last], by simp, partWay, isMissing⟩

/-! ### The last step of a path -/

theorem around_of_way (faultless : path.fault? = none) (short : AreShort path.front)
    (way : tree.HasWay (path.start tree.home) path.front) :
    tree.around path = .ok ((path.start tree.home).follow path.front) := by
  refine around_of_canTake faultless (CanTake.concat_iff.mpr ⟨way.canTake short, ?_⟩)
  exact ⟨isOpen_of_directory way.accepts_end, by simp [Path.isUnnamed, isSilent]⟩

theorem around_of_noWay (faultless : path.fault? = none) (home : tree.HasHome) (short : AreShort path.front)
    (room : tree.HasRoom (path.start tree.home) path.front)
    (noWay : ¬tree.HasWay (path.start tree.home) path.front) : tree.around path = .error .notFound := by
  obtain ⟨front, step, rest, isFront, way, named, missing⟩ := room.exists_missing (home.outside path) noWay
  rw [isFront] at short
  have can := way.canTake (short.mono (List.subset_append_left _ _))
  have looked : tree.entryIn ((path.start tree.home).follow front) step = .ok none :=
    entryIn_eq_ok_iff.mpr ⟨way.accepts_end, short step (by simp), missing⟩
  have walked : tree.walk false maxLinks (path.start tree.home) (front ++ step :: (rest ++ [['.']])) =
      .error .notFound := by
    rw [can.walk_append (by simp), walk_cons_named (isOpen_of_directory way.accepts_end) named (by simp),
      looked]
    simp
  have whole : path.front ++ [['.']] = front ++ step :: (rest ++ [['.']]) := by simp [isFront]
  simp only [around, faultless, whole, walked]
  rfl

end FileTree

end NameMigration
