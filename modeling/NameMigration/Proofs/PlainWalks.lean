import NameMigration.Proofs.Outcomes
import NameMigration.Proofs.PathNames

/-!
Walks through trees without links. A walk that succeeds has taken every step, and has come to where the
steps lead, or all but a last one that names nothing yet; and steps that can be taken are taken by every
walk that begins with them.
-/

namespace NameMigration

open Path.Parts (isSilent)

def Spot.location : Spot → Location
  | .found location => location
  | .free location => location

namespace FileTree

variable {tree : FileTree} {location place directory : Location} {path : Path} {step name : Text}
  {steps front rest : List Text} {last : Text}

def HasNoLinks (tree : FileTree) : Prop :=
  ∀ location target, tree.get? location ≠ some (.link target)

def HasHome (tree : FileTree) : Prop :=
  ∀ place, place <+: tree.home → tree.get? place = some .directory

/-- Whether there is nothing else where the home and the directories around it are or have been. -/
def HasHomeRoom (tree : FileTree) : Prop :=
  ∀ place, place <+: tree.home → tree.get? place = none ∨ tree.get? place = some .directory

theorem HasHome.hasHomeRoom (home : tree.HasHome) : tree.HasHomeRoom :=
  fun place isAround => Or.inr (home place isAround)

theorem HasHomeRoom.get?_of_isOpen (room : tree.HasHomeRoom) (isOpen : tree.isOpen location = true) :
    tree.get? location = none ∨ tree.get? location = some .directory := by
  simp only [FileTree.isOpen, Bool.or_eq_true, List.isPrefixOf_iff_prefix, decide_eq_true_eq] at isOpen
  exact isOpen.elim (room location) Or.inr

theorem HasHome.get?_of_isOpen (home : tree.HasHome) (isOpen : tree.isOpen location = true) :
    tree.get? location = some .directory := by
  simp only [FileTree.isOpen, Bool.or_eq_true, List.isPrefixOf_iff_prefix, decide_eq_true_eq] at isOpen
  exact isOpen.elim (home location) id

theorem isOpen_of_directory (isDirectory : tree.get? location = some .directory) :
    tree.isOpen location = true := by
  simp [isOpen, isDirectory]

theorem entryIn_eq_ok_iff {found : Option FileEntry} :
    tree.entryIn directory name = .ok found ↔
      tree.get? directory = some .directory ∧ name.utf8Length ≤ 255 ∧
        tree.get? (directory ++ [name]) = found := by
  unfold entryIn
  split
  · rename_i missing
    simp [missing]
  · rename_i isDirectory
    split
    · rename_i long
      simp [Nat.not_le.mpr long]
    · rename_i short
      simp [isDirectory, Nat.not_lt.mp short]
  · rename_i other notDirectory found
    rw [found, Option.some_inj]
    simp only [reduceCtorEq, false_iff]
    rintro ⟨isDirectory, -⟩
    exact notDirectory isDirectory

/-! ### Steps that can be taken -/

/-- Whether a walk goes on from the place with the step. What a name leads to has to be there. -/
structure Allows (tree : FileTree) (place : Location) (step : Text) : Prop where
  isOpen : tree.isOpen place = true
  named : Path.isUnnamed step = false → tree.get? place = some .directory ∧ step.utf8Length ≤ 255 ∧
    ∃ entry, tree.get? (place ++ [step]) = some entry ∧ ∀ target, entry ≠ .link target

structure AllowsNew (tree : FileTree) (place : Location) (name : Text) : Prop where
  named : Path.isUnnamed name = false
  isDirectory : tree.get? place = some .directory
  isShort : name.utf8Length ≤ 255
  missing : tree.get? (place ++ [name]) = none

def CanTake (tree : FileTree) (location : Location) (steps : List Text) : Prop :=
  ∀ front step, front ++ [step] <+: steps → tree.Allows (location.follow front) step

namespace CanTake

theorem nil (location : Location) : tree.CanTake location [] :=
  fun front step isFront => by simp at isFront

theorem cons (allows : tree.Allows location step) (others : tree.CanTake (location.next step) rest) :
    tree.CanTake location (step :: rest) := by
  intro front last isFront
  cases front with
  | nil =>
      obtain ⟨rfl, -⟩ := List.cons_prefix_cons.mp isFront
      exact allows
  | cons first front =>
      obtain ⟨rfl, isRest⟩ := List.cons_prefix_cons.mp isFront
      exact others front last isRest

theorem head (can : tree.CanTake location (step :: rest)) : tree.Allows location step :=
  can [] step (by simp)

theorem tail (can : tree.CanTake location (step :: rest)) : tree.CanTake (location.next step) rest :=
  fun front last isFront => can (step :: front) last (List.cons_prefix_cons.mpr ⟨rfl, isFront⟩)

theorem of_front (can : tree.CanTake location steps) (isFront : front <+: steps) :
    tree.CanTake location front :=
  fun part step isPart => can part step (isPart.trans isFront)

theorem allows_last (can : tree.CanTake location (front ++ [last])) :
    tree.Allows (location.follow front) last :=
  can front last List.prefix_rfl

theorem concat_iff : tree.CanTake location (front ++ [last]) ↔
    tree.CanTake location front ∧ tree.Allows (location.follow front) last := by
  constructor
  · intro can
    exact ⟨can.of_front (List.prefix_append front [last]), can.allows_last⟩
  · rintro ⟨can, allows⟩ part step isPart
    rcases List.prefix_concat_iff.mp isPart with whole | isPart
    · obtain ⟨rfl, same⟩ := List.append_inj' whole rfl
      exact List.singleton_inj.mp same ▸ allows
    · exact can part step isPart

end CanTake

/-- Where a walk that succeeds comes to. It has taken every step, or all but a last one to a free name. -/
inductive WalksTo (tree : FileTree) (location : Location) : (steps : List Text) → (spot : Spot) → Prop
  | found {steps : List Text} (can : tree.CanTake location steps) :
      WalksTo tree location steps (.found (location.follow steps))
  | free {front : List Text} {last : Text} (can : tree.CanTake location front)
      (isNew : tree.AllowsNew (location.follow front) last) :
      WalksTo tree location (front ++ [last]) (.free (location.follow (front ++ [last])))

namespace WalksTo

variable {spot : Spot}

theorem cons (allows : tree.Allows location step) (later : tree.WalksTo (location.next step) rest spot) :
    tree.WalksTo location (step :: rest) spot := by
  cases later with
  | found can => exact .found (.cons allows can)
  | free can isNew =>
      have whole := WalksTo.free (CanTake.cons allows can) isNew
      exact whole

theorem canTake {reached : Location} (walksTo : tree.WalksTo location steps (.found reached)) :
    tree.CanTake location steps := by
  cases walksTo
  assumption

theorem location_eq (walksTo : tree.WalksTo location steps spot) : spot.location = location.follow steps := by
  cases walksTo <;> rfl

/-- Steps that end with a silent one, as those of a path with a slash at the end, lead to no file. -/
theorem isOpen_of_slash (walksTo : tree.WalksTo location steps spot) (slashed : steps.getLast? = some []) :
    spot = .found (location.follow steps) ∧ tree.isOpen (location.follow steps) = true := by
  cases walksTo with
  | found can =>
      obtain ⟨front, rfl⟩ := List.getLast?_eq_some_iff.mp slashed
      refine ⟨rfl, ?_⟩
      rw [Location.follow_concat, Location.next_silent (by decide)]
      exact can.allows_last.isOpen
  | free can isNew =>
      obtain rfl : _ = [] := by simpa using slashed
      exact absurd isNew.named (by decide)

end WalksTo

section Walk

variable {creating : Bool} {links : Nat} {spot : Spot}

theorem walk_cons_unnamed (isOpen : tree.isOpen location = true) (unnamed : Path.isUnnamed step = true) :
    tree.walk creating links location (step :: rest) =
      tree.walk creating links (location.next step) rest := by
  simp only [Path.isUnnamed, Bool.or_eq_true, decide_eq_true_eq] at unnamed
  rw [walk, if_neg (by simp [isOpen])]
  rcases unnamed with silent | rfl
  · rw [if_pos silent, Location.next_silent silent]
  · rfl

theorem walk_cons_named (isOpen : tree.isOpen location = true) (named : Path.isUnnamed step = false)
    (notLast : creating = true → rest ≠ [[]]) :
    tree.walk creating links location (step :: rest) =
      match tree.entryIn location step with
      | .error fault => .error fault
      | .ok none => if rest = [] then .ok (.free (location ++ [step])) else .error .notFound
      | .ok (some (.link target)) =>
          if links = 0 then .error .tooManyLinks
          else
            match target.fault? with
            | some fault => .error fault
            | none => tree.walk creating (links - 1) (target.start location) (target.steps ++ rest)
      | .ok (some _) => tree.walk creating links (location.next step) rest := by
  rw [Location.next_name named]
  simp only [Path.isUnnamed, Bool.or_eq_false_iff, decide_eq_false_iff_not] at named
  rewrite [walk, if_neg (by simp [isOpen]), if_neg (by simp [named.1]), if_neg named.2,
    if_neg (by simpa using notLast)]
  rfl

theorem Allows.walk_cons (allows : tree.Allows location step) (notLast : creating = true → rest ≠ [[]]) :
    tree.walk creating links location (step :: rest) =
      tree.walk creating links (location.next step) rest := by
  cases named : Path.isUnnamed step with
  | true => exact walk_cons_unnamed allows.isOpen named
  | false =>
      obtain ⟨isDirectory, isShort, entry, found, noLink⟩ := allows.named named
      rw [walk_cons_named allows.isOpen named notLast, entryIn_eq_ok_iff.mpr ⟨isDirectory, isShort, found⟩]
      cases entry with
      | link target => exact absurd rfl (noLink target)
      | directory | file => rfl

theorem CanTake.walk_append (can : tree.CanTake location steps)
    (notLast : creating = true → [] ∉ steps ∧ rest ≠ [[]]) :
    tree.walk creating links location (steps ++ rest) =
      tree.walk creating links (location.follow steps) rest := by
  induction steps generalizing location with
  | nil => rfl
  | cons step others ih =>
      have notEnd (isCreating : creating = true) : others ++ rest ≠ [[]] := by
        obtain ⟨noneEmpty, isOpen⟩ := notLast isCreating
        intro isLast
        rcases List.append_eq_singleton_iff.mp isLast with ⟨-, isRest⟩ | ⟨isOthers, -⟩
        · exact isOpen isRest
        · simp [isOthers] at noneEmpty
      rw [List.cons_append, can.head.walk_cons notEnd, Location.follow_cons]
      refine ih can.tail fun isCreating => ⟨?_, (notLast isCreating).2⟩
      exact fun member => (notLast isCreating).1 (List.mem_cons_of_mem step member)

theorem walksTo_of_walk (noLinks : tree.HasNoLinks)
    (walked : tree.walk creating links location steps = .ok spot) : tree.WalksTo location steps spot := by
  fun_induction walk tree creating links location steps with
  | case1 links location =>
      cases walked
      exact .found (.nil location)
  | case2 | case5 | case6 | case8 | case9 | case10 => simp at walked
  | case3 links location step rest isOpen silent ih =>
      have allows : tree.Allows location step := ⟨by simpa using isOpen, by simp [Path.isUnnamed, silent]⟩
      have later : tree.WalksTo (location.next step) rest spot := by
        rw [Location.next_silent silent]
        exact ih walked
      exact later.cons allows
  | case4 links location rest isOpen speaks ih =>
      exact (ih walked).cons ⟨by simpa using isOpen, by simp [Path.isUnnamed]⟩
  | case7 links location step isOpen speaks notParent looked =>
      obtain ⟨isDirectory, isShort, missing⟩ := entryIn_eq_ok_iff.mp looked
      have named : Path.isUnnamed step = false := by simp [Path.isUnnamed, speaks, notParent]
      have free := WalksTo.free (.nil location) ⟨named, isDirectory, isShort, missing⟩
      rw [Location.follow_concat, Location.follow_nil, Location.next_name named] at free
      exact Except.ok.inj walked ▸ free
  | case11 _ location step _ _ _ _ _ target looked =>
      exact absurd (entryIn_eq_ok_iff.mp looked).2.2 (noLinks _ target)
  | case12 links location step rest isOpen speaks notParent _ entry noLink looked ih =>
      obtain ⟨isDirectory, isShort, found⟩ := entryIn_eq_ok_iff.mp looked
      have named : Path.isUnnamed step = false := by simp [Path.isUnnamed, speaks, notParent]
      have later : tree.WalksTo (location.next step) rest spot := by
        rw [Location.next_name named]
        exact ih walked
      exact later.cons
        ⟨by simpa using isOpen, fun _ => ⟨isDirectory, isShort, entry, found, noLink⟩⟩

theorem get?_of_walk_free {reached : Location}
    (walked : tree.walk creating links location steps = .ok (.free reached)) :
    reached ≠ [] ∧ tree.get? reached = none := by
  fun_induction walk tree creating links location steps with
  | case1 | case2 | case5 | case6 | case8 | case9 | case10 => simp at walked
  | case3 _ _ _ _ _ _ ih => exact ih walked
  | case4 _ _ _ _ _ ih => exact ih walked
  | case7 _ _ _ _ _ _ looked =>
      cases walked
      exact ⟨by simp, (entryIn_eq_ok_iff.mp looked).2.2⟩
  | case11 _ _ _ _ _ _ _ _ _ _ _ _ ih => exact ih walked
  | case12 _ _ _ _ _ _ _ _ _ _ _ ih => exact ih walked

end Walk

/-! ### Where paths lead -/

theorem spot_ok {creating : Bool} {spot : Spot} (isSpot : tree.spot path creating = .ok spot) :
    path.fault? = none ∧ tree.walk creating maxLinks (path.start tree.home) path.steps = .ok spot := by
  unfold FileTree.spot at isSpot
  split at isSpot
  · simp at isSpot
  · exact ⟨‹_›, isSpot⟩

theorem place_eq (tree : FileTree) (path : Path) :
    tree.place path = (path.start tree.home).follow path.steps :=
  (Path.follow_steps _ path).symm

theorem location_of_spot (noLinks : tree.HasNoLinks) {creating : Bool} {spot : Spot}
    (isSpot : tree.spot path creating = .ok spot) : spot.location = tree.place path := by
  rw [place_eq]
  exact (walksTo_of_walk noLinks (spot_ok isSpot).2).location_eq

theorem spot_of_locate {found : Location × FileEntry} (located : tree.locate path = .ok found) :
    tree.spot path = .ok (.found found.1) ∧ (tree.get? found.1).getD .directory = found.2 := by
  unfold locate at located
  split at located
  · simp at located
  · simp at located
  · rename_i isSpot
    cases located
    exact ⟨isSpot, rfl⟩

theorem fault?_of_locate {found : Location × FileEntry} (located : tree.locate path = .ok found) :
    path.fault? = none :=
  (spot_ok (spot_of_locate located).1).1

theorem place_of_locate (noLinks : tree.HasNoLinks) {entry : FileEntry}
    (located : tree.locate path = .ok (location, entry)) :
    tree.place path = location ∧ (tree.get? location).getD .directory = entry := by
  obtain ⟨isSpot, isEntry⟩ := spot_of_locate located
  exact ⟨(location_of_spot noLinks isSpot).symm, isEntry⟩

theorem canTake_of_locate (noLinks : tree.HasNoLinks) {found : Location × FileEntry}
    (located : tree.locate path = .ok found) : tree.CanTake (path.start tree.home) path.steps :=
  (walksTo_of_walk noLinks (spot_ok (spot_of_locate located).1).2).canTake

theorem spot_of_canTake (faultless : path.fault? = none)
    (can : tree.CanTake (path.start tree.home) path.steps) :
    tree.spot path = .ok (.found (tree.place path)) := by
  have walked : tree.walk false maxLinks (path.start tree.home) (path.steps ++ []) =
      .ok (.found (tree.place path)) := by
    rw [can.walk_append (by simp), ← place_eq, walk]
  rw [List.append_nil] at walked
  simp only [spot, faultless, walked]

/-! ### The last step of a path -/

theorem follow_front_dot (location : Location) (path : Path) :
    location.follow (path.front ++ [['.']]) = location.follow path.front := by
  rw [Location.follow_concat, Location.next_silent (by decide)]

theorem around_ok (noLinks : tree.HasNoLinks) (stepped : tree.around path = .ok directory) :
    path.fault? = none ∧ tree.CanTake (path.start tree.home) (path.front ++ [['.']]) ∧
      directory = (path.start tree.home).follow path.front := by
  cases isFault : path.fault? with
  | some fault =>
      simp only [around, isFault, bind_eq_ok_iff, throw_ne_ok] at stepped
      simp at stepped
  | none =>
      simp only [around, isFault, bind_eq_ok_iff] at stepped
      obtain ⟨spot, walked, isFound⟩ := stepped
      have walksTo := walksTo_of_walk noLinks walked
      generalize isSteps : path.front ++ [['.']] = steps at walksTo
      cases walksTo with
      | found can =>
          refine ⟨rfl, isSteps ▸ can, ?_⟩
          rw [← follow_front_dot, isSteps, pure_eq_ok_iff.mp isFound]
      | free can isNew => exact absurd isFound (throw_ne_ok _)

theorem CanTake.front_dot (can : tree.CanTake location path.steps) (nonempty : path ≠ []) :
    tree.CanTake location (path.front ++ [['.']]) := by
  have taken := can.of_front (Path.front_last_prefix nonempty)
  refine concat_iff.mpr ⟨taken.of_front (List.prefix_append _ _), taken.allows_last.isOpen, ?_⟩
  simp [Path.isUnnamed, isSilent]

theorem around_of_canTake (faultless : path.fault? = none)
    (can : tree.CanTake (path.start tree.home) (path.front ++ [['.']])) :
    tree.around path = .ok ((path.start tree.home).follow path.front) := by
  have walked : tree.walk false maxLinks (path.start tree.home) (path.front ++ [['.']] ++ []) =
      .ok (.found ((path.start tree.home).follow path.front)) := by
    rw [can.walk_append (by simp), follow_front_dot, walk]
  rw [List.append_nil] at walked
  simp only [around, faultless, walked]
  rfl

theorem place_eq_front (tree : FileTree) (named : Path.isUnnamed path.last = false) :
    tree.place path = (path.start tree.home).follow path.front ++ [path.last] :=
  Path.follow_names_named _ named

end FileTree

end NameMigration
