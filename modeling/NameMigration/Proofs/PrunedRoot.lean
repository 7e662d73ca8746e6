import Mathlib
import NameMigration.Proofs.Removals
import NameMigration.Proofs.SourceWalk

/-!
What pruning takes away outside the source root. The files directly in the root are inside it, but the paths
that the settings name may lead anywhere, so everything outside stays exactly if each of these paths, in
the tree that it meets, loses only what is inside. That is so if every path goes below the root.
-/

namespace NameMigration

open FileTree

variable {settings : Settings} {tree before between after : FileTree} {path root : Path} {paths : List Path}
  {location place : Location}

def Settings.HasInside (settings : Settings) (tree : FileTree) (location : Location) : Prop :=
  isInside (tree.place settings.sourceDir) location = true

def Settings.KeepsOutside (settings : Settings) (before after : FileTree) : Prop :=
  ∀ location, ¬settings.HasInside before location → after.get? location = before.get? location

structure PruneMeeting where
  path : Path
  tree : FileTree

/-- What each of the paths meets, up to the first that cannot be removed. -/
def pruneMeetings : (paths : List Path) → (before : FileTree) → List PruneMeeting
  | [], _ => []
  | path :: rest, before =>
      ⟨path, before⟩ ::
        match prunePath path before with
        | .ok _ between => pruneMeetings rest between
        | .error _ _ => []

def Settings.pruned (settings : Settings) : List Path :=
  settings.prune.map settings.sourceDir.join

/-- Whether the path goes to something inside the directory that it begins in, and never leaves it. -/
def Path.GoesBelow (path : Path) : Prop :=
  path.isAbsolute = false ∧ ∃ below ∈ Location.descend? [] path.names, below ≠ []

instance (path : Path) : Decidable path.GoesBelow :=
  inferInstanceAs (Decidable (_ ∧ ∃ below ∈ Location.descend? [] path.names, below ≠ []))

/-! ### Trees that only lose entries -/

namespace FileTree

structure Shrinks (before after : FileTree) : Prop where
  sameHome : after.home = before.home
  loses : ∀ location, after.get? location = before.get? location ∨ after.get? location = none

namespace Shrinks

theorem refl (tree : FileTree) : tree.Shrinks tree :=
  ⟨rfl, fun _ => Or.inl rfl⟩

theorem trans (first : before.Shrinks between) (second : between.Shrinks after) : before.Shrinks after := by
  refine ⟨second.sameHome.trans first.sameHome, ?_⟩
  intro location
  rcases second.loses location with same | gone
  · rw [same]
    exact first.loses location
  · exact Or.inr gone

theorem hasNoLinks (shrinks : before.Shrinks after) (noLinks : before.HasNoLinks) : after.HasNoLinks := by
  intro location target isLink
  rcases shrinks.loses location with same | gone
  · exact noLinks location target (same ▸ isLink)
  · simp [gone] at isLink

theorem hasHomeRoom (shrinks : before.Shrinks after) (room : before.HasHomeRoom) : after.HasHomeRoom := by
  intro place isAround
  rcases shrinks.loses place with same | gone
  · rw [same]
    exact room place (shrinks.sameHome ▸ isAround)
  · exact Or.inl gone

theorem place_eq (shrinks : before.Shrinks after) (path : Path) : after.place path = before.place path :=
  place_congr shrinks.sameHome path

theorem hasInside_iff (shrinks : before.Shrinks after) :
    settings.HasInside after location ↔ settings.HasInside before location := by
  rw [Settings.HasInside, Settings.HasInside, shrinks.place_eq]

end Shrinks

theorem shrinks_erase (tree : FileTree) (gone : Location → Bool) : tree.Shrinks (tree.erase gone) := by
  refine ⟨rfl, ?_⟩
  intro location
  by_cases kept : gone location = false
  · exact Or.inl (get?_erase_of_not tree kept)
  · by_cases isRoot : location = []
    · exact Or.inl (by rw [isRoot, get?_root, get?_root])
    · exact Or.inr (get?_erase_of_gone tree (by simpa using kept) isRoot)

end FileTree

/-- What comes back nowhere is kept by two changes together only if each of them keeps it. -/
theorem keepsOutside_trans_iff (first : before.Shrinks between) (second : between.Shrinks after) :
    settings.KeepsOutside before after ↔
      settings.KeepsOutside before between ∧ settings.KeepsOutside between after := by
  constructor
  · intro keeps
    have same (location : Location) (outside : ¬settings.HasInside before location) :
        between.get? location = before.get? location := by
      rcases first.loses location with same | gone
      · exact same
      · rcases second.loses location with still | alsoGone
        · rw [← still, keeps location outside]
        · rw [gone, ← keeps location outside, alsoGone]
    refine ⟨same, ?_⟩
    intro location outside
    rw [first.hasInside_iff] at outside
    rw [keeps location outside, same location outside]
  · rintro ⟨keepsFirst, keepsSecond⟩ location outside
    rw [keepsSecond location (mt first.hasInside_iff.mp outside), keepsFirst location outside]

/-! ### The paths that the settings name -/

theorem removeFile_erases (noLinks : tree.HasNoLinks) (removed : tree.removeFile path = .ok after) :
    after = tree.erase (· = tree.place path) := by
  obtain ⟨directory, stepped, removed⟩ := bind_eq_ok_iff.mp removed
  obtain ⟨-, -, rfl⟩ := around_ok noLinks stepped
  split at removed
  · exact absurd removed (throw_ne_ok _)
  · rename_i named
    rw [place_eq_front tree (by simpa using named)]
    obtain ⟨found, -, removed⟩ := bind_eq_ok_iff.mp removed
    split at removed
    · exact absurd removed (throw_ne_ok _)
    · exact absurd removed (throw_ne_ok _)
    · split at removed
      · exact absurd removed (throw_ne_ok _)
      · exact (pure_eq_ok_iff.mp removed).symm

theorem removeDirectory_home (removed : tree.removeDirectory path = .ok after) : after.home = tree.home := by
  obtain ⟨directory, -, removed⟩ := bind_eq_ok_iff.mp removed
  iterate 3
    split at removed
    · exact absurd removed (throw_ne_ok _)
  obtain ⟨found, -, removed⟩ := bind_eq_ok_iff.mp removed
  split at removed
  · exact absurd removed (throw_ne_ok _)
  · split at removed
    · rw [← pure_eq_ok_iff.mp removed, home_erase]
    · exact absurd removed (throw_ne_ok _)
  · exact absurd removed (throw_ne_ok _)

theorem prunePath_home (noLinks : before.HasNoLinks) (path : Path) :
    ((prunePath path).left before).home = before.home := by
  rw [prunePath_left]
  cases located : before.locate path with
  | error fault => simp [isDirectory, isFile, find, located, Except.map]
  | ok found =>
      obtain ⟨location, entry⟩ := found
      cases entry with
      | link target => exact absurd located (locate_ne_link noLinks)
      | file content =>
          rw [if_neg (by simp [isDirectory, find, located, Except.map])]
          split
          · rw [pruneFile_left]
            cases removed : before.removeFile path with
            | error fault => rfl
            | ok after => rw [removeFile_erases noLinks removed, home_erase]
          · rfl
      | directory =>
          rw [if_pos (by simp [isDirectory, find, located, Except.map]), removeTree_left noLinks located]
          cases removed : (before.erase (isInside location)).removeDirectory path with
          | error fault => rfl
          | ok after =>
              change after.home = before.home
              rw [removeDirectory_home removed, home_erase]

theorem prunePath_shrinks (noLinks : before.HasNoLinks) (room : before.HasHomeRoom) (path : Path) :
    before.Shrinks ((prunePath path).left before) := by
  refine ⟨prunePath_home noLinks path, ?_⟩
  intro location
  obtain ⟨loses, keeps⟩ := get?_prunePath_left noLinks room path location
  by_cases lost : before.Loses path location
  · exact Or.inr (loses lost).2
  · exact Or.inl (keeps lost)

theorem prunePath_keepsOutside_iff (noLinks : before.HasNoLinks) (room : before.HasHomeRoom) (path : Path) :
    settings.KeepsOutside before ((prunePath path).left before) ↔
      ∀ place, before.Loses path place → settings.HasInside before place := by
  constructor
  · intro keeps place lost
    by_contra outside
    obtain ⟨isThere, gone⟩ := (get?_prunePath_left noLinks room path place).1 lost
    rw [← keeps place outside, gone] at isThere
    simp at isThere
  · intro inside place outside
    exact (get?_prunePath_left noLinks room path place).2 fun lost => outside (inside place lost)

theorem prunePaths_shrinks (noLinks : before.HasNoLinks) (room : before.HasHomeRoom) (paths : List Path) :
    before.Shrinks ((paths.mapM prunePath).left before) := by
  refine FileAction.left_mapM
    (fun first second => first.HasNoLinks → first.HasHomeRoom → first.Shrinks second)
    (fun tree _ _ => .refl tree) ?_ ?_ before noLinks room
  · intro first second third firstShrinks secondShrinks plain someRoom
    have shrinks := firstShrinks plain someRoom
    exact shrinks.trans (secondShrinks (shrinks.hasNoLinks plain) (shrinks.hasHomeRoom someRoom))
  · exact fun path _ tree plain someRoom => prunePath_shrinks plain someRoom path

theorem prunePaths_keepsOutside_iff (noLinks : before.HasNoLinks) (room : before.HasHomeRoom) :
    settings.KeepsOutside before ((paths.mapM prunePath).left before) ↔
      ∀ meeting ∈ pruneMeetings paths before, ∀ place, meeting.tree.Loses meeting.path place →
        settings.HasInside before place := by
  induction paths generalizing before with
  | nil => exact ⟨fun _ => by simp [pruneMeetings], fun _ location _ => rfl⟩
  | cons path rest ih =>
      have first : settings.KeepsOutside before _ ↔ _ := prunePath_keepsOutside_iff noLinks room path
      have shrinks := prunePath_shrinks noLinks room path
      rw [FileAction.left_mapM_cons, pruneMeetings]
      cases done : prunePath path before with
      | ok _ between =>
          rw [FileAction.left_of_ok done] at first shrinks
          have plain := shrinks.hasNoLinks noLinks
          have stillRoom := shrinks.hasHomeRoom room
          simp only [List.forall_mem_cons]
          rw [keepsOutside_trans_iff shrinks (prunePaths_shrinks plain stillRoom rest), first,
            ih plain stillRoom]
          simp only [shrinks.hasInside_iff]
      | error _ between =>
          rw [FileAction.left_of_error done] at first
          simpa using first

theorem of_mem_pruneMeetings {meeting : PruneMeeting} (noLinks : before.HasNoLinks)
    (room : before.HasHomeRoom) (member : meeting ∈ pruneMeetings paths before) :
    meeting.path ∈ paths ∧ before.Shrinks meeting.tree := by
  induction paths generalizing before with
  | nil => simp [pruneMeetings] at member
  | cons path rest ih =>
      rw [pruneMeetings] at member
      rcases List.mem_cons.mp member with rfl | later
      · exact ⟨List.mem_cons_self, .refl before⟩
      · cases done : prunePath path before with
        | error _ between => simp [done] at later
        | ok _ between =>
            have shrinks := prunePath_shrinks noLinks room path
            rw [FileAction.left_of_ok done] at shrinks
            simp only [done] at later
            obtain ⟨isRest, others⟩ := ih (shrinks.hasNoLinks noLinks) (shrinks.hasHomeRoom room) later
            exact ⟨List.mem_cons_of_mem path isRest, shrinks.trans others⟩

/-- A path that goes below the source root loses nothing outside of it. -/
theorem loses_inside (noLinks : tree.HasNoLinks) (below : path.GoesBelow)
    (lost : tree.Loses (settings.sourceDir.join path) place) : settings.HasInside tree place := by
  obtain ⟨isRelative, below, isBelow, someBelow⟩ := below
  have isPlace : tree.place (settings.sourceDir.join path) = tree.place settings.sourceDir ++ below := by
    have followed := Location.follow_of_descend? (tree.place settings.sourceDir) isBelow
    rwa [List.append_nil, ← Path.place_join tree _ isRelative] at followed
  unfold Loses at lost
  cases located : tree.locate (settings.sourceDir.join path) with
  | error fault => simp [located] at lost
  | ok found =>
      obtain ⟨location, entry⟩ := found
      obtain ⟨rfl, -⟩ := place_of_locate noLinks located
      have atOrBelow : tree.place (settings.sourceDir.join path) <+: place := by
        cases entry with
        | directory =>
            simp only [located] at lost
            rcases lost with ⟨inside, -⟩ | ⟨rfl, -⟩
            · exact (isInside_iff.mp inside).1
            · exact List.prefix_rfl
        | file content =>
            simp only [located] at lost
            exact lost ▸ List.prefix_rfl
        | link target => exact absurd located (locate_ne_link noLinks)
      rw [isPlace] at atOrBelow
      refine isInside_iff.mpr ⟨(List.prefix_append _ below).trans atOrBelow, ?_⟩
      rintro rfl
      have short := atOrBelow.length_le
      rw [List.length_append] at short
      exact someBelow (List.eq_nil_of_length_eq_zero (by omega))

/-! ### The files directly in the root -/

theorem pruneTopLevel_left (root : Path) (tree : FileTree) :
    (pruneTopLevel root).left tree =
      match tree.locate root with
      | .ok (location, .directory) =>
          ((tree.fileNames location).mapM fun name => pruneFile (root.join name)).left tree
      | _ => tree := by
  have got : (get : FileAction Fault FileTree) tree = .ok tree tree := rfl
  rw [pruneTopLevel, FileAction.left_bind, got]
  simp only
  cases tree.locate root with
  | error fault => rfl
  | ok found =>
      obtain ⟨location, entry⟩ := found
      cases entry with
      | directory =>
          simp only
          rw [FileAction.left_bind, got]
          simp only
          rw [FileAction.left_bind_pure]
      | file content => rfl
      | link target => rfl

theorem get?_of_mem_fileNames {directory : Location} {name : Text}
    (member : name ∈ tree.fileNames directory) : (tree.get? (directory ++ [name])).isSome := by
  obtain ⟨⟨childName, entry⟩, isChild, isName⟩ := List.mem_filterMap.mp member
  obtain ⟨⟨location, entry⟩, isInside, isChild⟩ := List.mem_filterMap.mp isChild
  obtain ⟨names, -, rfl, found⟩ := mem_inside_iff.mp isInside
  simp only [List.drop_left] at isChild
  split at isChild
  · cases isChild
    cases entry <;> simp at isName
    rw [← isName, found]
    rfl
  · simp at isChild

theorem pruneTopLevel_keepsOutside (noLinks : tree.HasNoLinks)
    (named : ∀ location entry, tree.get? location = some entry → ∀ name ∈ location, IsFileName name) :
    tree.Shrinks ((pruneTopLevel settings.sourceDir).left tree) ∧
      settings.KeepsOutside tree ((pruneTopLevel settings.sourceDir).left tree) := by
  rw [pruneTopLevel_left]
  split
  · rename_i source located
    obtain ⟨rfl, -⟩ := place_of_locate noLinks located
    refine FileAction.left_mapM
      (fun first second => tree.Shrinks first → first.Shrinks second ∧ settings.KeepsOutside first second)
      (fun tree _ => ⟨.refl tree, fun _ _ => rfl⟩) ?_ ?_ tree (.refl tree)
    · intro first second third keepsFirst keepsSecond shrinks
      obtain ⟨shrinksFirst, keepsFirst⟩ := keepsFirst shrinks
      obtain ⟨shrinksSecond, keepsSecond⟩ := keepsSecond (shrinks.trans shrinksFirst)
      exact ⟨shrinksFirst.trans shrinksSecond,
        (keepsOutside_trans_iff shrinksFirst shrinksSecond).mpr ⟨keepsFirst, keepsSecond⟩⟩
    · intro name member met shrinks
      obtain ⟨entry, found⟩ := Option.isSome_iff_exists.mp (get?_of_mem_fileNames member)
      have isName : IsFileName name := named _ entry found name (by simp)
      rw [pruneFile_left]
      split
      · rename_i removed isRemoved
        obtain rfl := removeFile_erases (shrinks.hasNoLinks noLinks) isRemoved
        refine ⟨shrinks_erase met _, ?_⟩
        intro location outside
        apply get?_erase_of_not
        rw [Path.place_join met _ isName.isAbsolute_eq, isName.names_eq, Location.follow_cons,
          Location.next_name isName.named, Location.follow_nil]
        have different : location ≠ met.place settings.sourceDir ++ [name] := by
          rintro rfl
          exact outside (isInside_iff.mpr ⟨List.prefix_append _ [name], by simp⟩)
        simpa using different
      · exact ⟨.refl met, fun _ _ => rfl⟩
  · exact ⟨.refl tree, fun _ _ => rfl⟩

/-! ### Pruning -/

theorem prune_left (settings : Settings) (before : FileTree) :
    (prune settings).left before =
      match settings.pruned.mapM prunePath before with
      | .ok _ between =>
          if settings.pruneTopLevelFiles then (pruneTopLevel settings.sourceDir).left between else between
      | .error _ between => between := by
  have samePaths : settings.pruned.mapM prunePath =
    settings.prune.mapM fun path => prunePath (settings.sourceDir.join path) := List.mapM_map
  rw [prune, FileAction.left_bind, samePaths]
  cases (settings.prune.mapM fun path => prunePath (settings.sourceDir.join path)) before with
  | error fault between => rfl
  | ok removals between =>
      simp only
      split
      · rw [FileAction.left_bind_pure]
      · rfl

theorem prune_keepsOutside_paths (noLinks : before.HasNoLinks) (wellFormed : before.IsWellFormed) :
    settings.KeepsOutside before ((prune settings).left before) ↔
      settings.KeepsOutside before ((settings.pruned.mapM prunePath).left before) := by
  have shrinks := prunePaths_shrinks noLinks wellFormed.hasHome.hasHomeRoom settings.pruned
  rw [prune_left]
  cases done : settings.pruned.mapM prunePath before with
  | error fault between => rw [FileAction.left_of_error done]
  | ok removals between =>
      rw [FileAction.left_of_ok done] at shrinks ⊢
      simp only
      split
      · have named : ∀ location entry, between.get? location = some entry →
            ∀ name ∈ location, IsFileName name := by
          intro location entry found
          rcases shrinks.loses location with same | gone
          · exact wellFormed.named location entry (same ▸ found)
          · simp [gone] at found
        obtain ⟨topShrinks, topKeeps⟩ := pruneTopLevel_keepsOutside (shrinks.hasNoLinks noLinks) named
        rw [keepsOutside_trans_iff shrinks topShrinks]
        exact and_iff_left topKeeps
      · rfl

/-- Pruning keeps everything outside the source root exactly if each path that the settings name, in the
tree that it meets, loses only what is inside. It always does if every path goes below the root. -/
theorem prune_keepsOutside_iff (noLinks : before.HasNoLinks) (wellFormed : before.IsWellFormed) :
    (settings.KeepsOutside before ((prune settings).left before) ↔
      ∀ meeting ∈ pruneMeetings settings.pruned before, ∀ place, meeting.tree.Loses meeting.path place →
        settings.HasInside before place) ∧
      ((∀ path ∈ settings.prune, path.GoesBelow) →
        settings.KeepsOutside before ((prune settings).left before)) := by
  have room := wellFormed.hasHome.hasHomeRoom
  have keeps_iff : settings.KeepsOutside before ((prune settings).left before) ↔ _ :=
    (prune_keepsOutside_paths noLinks wellFormed).trans (prunePaths_keepsOutside_iff noLinks room)
  refine ⟨keeps_iff, ?_⟩
  intro below
  apply keeps_iff.mpr
  intro meeting member place lost
  obtain ⟨isPath, shrinks⟩ := of_mem_pruneMeetings noLinks room member
  obtain ⟨path, isNamed, joined⟩ := List.mem_map.mp isPath
  rw [← joined] at lost
  exact shrinks.hasInside_iff.mp (loses_inside (shrinks.hasNoLinks noLinks) (below path isNamed) lost)

example : ∀ path ∈ Settings.default.prune, path.GoesBelow := by decide

def yard : FileTree where
  entries := [
    (["work"].map String.toList, .directory),
    (["work", "old"].map String.toList, .directory),
    (["work", "old", "Jam.java"].map String.toList, .file []),
    (["work", "old", "test"].map String.toList, .directory),
    (["work", "old", "test", "Spoon.java"].map String.toList, .file []),
    (["work", "shed"].map String.toList, .directory),
    (["work", "shed", "tools.txt"].map String.toList, .file (Text.utf8 "spade\n".toList))]
  home := ["work".toList]
  ordered := by decide

def yardSettings : Settings :=
  { Settings.default with sourceDir := "old".toList, prune := ["./test/".toList] }

theorem yard_hasNoLinks : yard.HasNoLinks :=
  .of_entries (by simp [yard])

theorem yard_isWellFormed : yard.IsWellFormed :=
  .of_entries (by decide) (by decide) (by decide)

theorem prune_keepsOutside_yard :
    yard.HasNoLinks ∧ yard.IsWellFormed ∧ (∀ path ∈ yardSettings.prune, path.GoesBelow) ∧
      ((prune yardSettings).left yard).get? (["work", "old", "test"].map String.toList) = none ∧
      yardSettings.KeepsOutside yard ((prune yardSettings).left yard) := by
  have below : ∀ path ∈ yardSettings.prune, path.GoesBelow := by decide
  have gone : ((prune yardSettings).left yard).get? (["work", "old", "test"].map String.toList) = none := by
    cbv
  exact ⟨yard_hasNoLinks, yard_isWellFormed, below, gone,
    (prune_keepsOutside_iff yard_hasNoLinks yard_isWellFormed).2 below⟩

def strayingSettings : Settings :=
  { yardSettings with prune := ["../shed".toList] }

theorem yard_losesShed :
    yard.HasNoLinks ∧ yard.IsWellFormed ∧ strayingSettings.fault? = none ∧
      ¬strayingSettings.KeepsOutside yard ((prune strayingSettings).left yard) := by
  have faultless : strayingSettings.fault? = none := by cbv
  have gone : ((prune strayingSettings).left yard).get? (["work", "shed"].map String.toList) = none := by cbv
  refine ⟨yard_hasNoLinks, yard_isWellFormed, faultless, ?_⟩
  intro keeps
  have isKept := keeps (["work", "shed"].map String.toList) (by unfold Settings.HasInside; decide)
  rw [gone] at isKept
  exact absurd isKept (by decide)

-- An absolute path takes the place of the source root instead of going on from it.
example : ((prune { yardSettings with prune := ["/work/shed".toList] }).left yard).get?
    (["work", "shed"].map String.toList) = none := by cbv

end NameMigration
