import NameMigration.Proofs.MadeWays
import NameMigration.Proofs.SourceWalk

/-!
What writing files one after the other does. A file can be written if every place on the way to it is a
directory or free and its own place is free or has a file, and writing it changes these places only. So a
list of files can be written if the tree has room for each of them and none is on the way to another, and
what is then in the tree does not depend on the order of the list.
-/

namespace NameMigration

open Path.Parts (isSilent)

structure FileWrite where
  path : Path
  lines : List Text
  deriving DecidableEq, Repr

namespace FileWrite

def content (write : FileWrite) : Bytes :=
  (Text.ofLines write.lines).utf8

def perform (write : FileWrite) : FileAction Fault Unit :=
  writeLines write.path write.lines

def performAll (writes : List FileWrite) : FileAction Fault Unit :=
  writes.forM perform

def place (write : FileWrite) (home : Location) : Location :=
  (write.path.start home).follow write.path.names

def Passes (write : FileWrite) (home : Location) : (location : Location) → Prop :=
  Location.IsOnWay (write.path.start home) write.path.names

def EndsInName (write : FileWrite) : Prop :=
  ∃ name, (write.path.splitOn '/').getLast? = some name ∧ IsFileName name

end FileWrite

variable {tree before between after : FileTree} {write other : FileWrite} {home location place : Location}

namespace Location

theorem isOnWay_concat {start : Location} {outer : List Text} {last : Text} :
    IsOnWay start (outer ++ [last]) place ↔ ∃ front, front <+: outer ∧ start.follow front = place := by
  constructor
  · rintro ⟨front, behind, inOrder, further, leads⟩
    refine ⟨front, ?_, leads⟩
    have isFront : front <+: outer ++ [last] := ⟨behind, inOrder.symm⟩
    rcases List.prefix_concat_iff.mp isFront with whole | isFront
    · rw [whole] at inOrder
      exact absurd (List.self_eq_append_right.mp inOrder) further
    · exact isFront
  · rintro ⟨front, ⟨behind, rfl⟩, leads⟩
    exact ⟨front, behind ++ [last], by simp, by simp, leads⟩

end Location

/-! ### One file -/

namespace FileTree

structure Admits (tree : FileTree) (write : FileWrite) : Prop where
  faultless : write.path.fault? = none
  short : AreShort write.path.names
  room : ∀ place, write.Passes tree.home place → tree.get? place = none ∨ tree.get? place = some .directory
  free : tree.get? (write.place tree.home) = none ∨
    ∃ old, tree.get? (write.place tree.home) = some (.file old)
  apart : ¬write.Passes tree.home (write.place tree.home)

/-- An entry for the root itself, which nothing looks at. -/
def rootItem? (tree : FileTree) : Option (Location × FileEntry) :=
  tree.entries.find? (·.1 = [])

theorem rootItem?_put (tree : FileTree) (entry : FileEntry) (inside : location ≠ []) :
    (tree.put location entry).rootItem? = tree.rootItem? := by
  simp [rootItem?, put, tree.ordered.find?_put, inside]

/-- A tree is known by its home and what stands at each of its locations. -/
theorem eq_of_get? {first second : FileTree} (sameHome : first.home = second.home)
    (same : ∀ location, first.get? location = second.get? location)
    (sameRoot : first.rootItem? = second.rootItem?) : first = second := by
  have member {tree : FileTree} (entry : Location × FileEntry) : entry ∈ tree.entries ↔
      if entry.1 = [] then tree.rootItem? = some entry else tree.get? entry.1 = some entry.2 := by
    obtain ⟨location, entry⟩ := entry
    split
    · rename_i isRoot
      subst isRoot
      exact tree.ordered.mem_iff_find?
    · rename_i inside
      exact ⟨get?_of_mem_entries inside, mem_entries_of_get? inside⟩
  have sameEntries : first.entries = second.entries := by
    refine first.ordered.eq_of_mem_iff second.ordered ?_
    intro entry
    rw [member, member, same, sameRoot]
  cases first
  cases second
  cases sameEntries
  cases sameHome
  rfl

end FileTree

structure FileWrite.Makes (write : FileWrite) (before after : FileTree) : Prop where
  sameHome : after.home = before.home
  isFile : after.get? (write.place before.home) = some (.file write.content)
  onWay : ∀ place, write.Passes before.home place → after.get? place = some .directory
  others : ∀ place, place ≠ write.place before.home → ¬write.Passes before.home place →
    after.get? place = before.get? place
  root : after.rootItem? = before.rootItem?

theorem createParent_rootItem? (path : Path) (before : FileTree) :
    ((createParent path).left before).rootItem? = before.rootItem? := by
  unfold createParent
  cases path.parent? with
  | none => rfl
  | some parent =>
      simp only [FileAction.left_within]
      refine FileAction.createEach_left (fun first second => second.rootItem? = first.rootItem?)
        (fun _ => rfl) (fun first second => second.trans first) ?_ before
      intro place _ tree changed created
      obtain ⟨directory, -, created⟩ := bind_eq_ok_iff.mp created
      split at created
      · exact absurd created (throw_ne_ok _)
      · obtain ⟨found, -, created⟩ := bind_eq_ok_iff.mp created
        split at created
        · exact absurd created (throw_ne_ok _)
        · rw [← pure_eq_ok_iff.mp created]
          exact FileTree.rootItem?_put tree _ (by simp)

namespace FileWrite

open FileTree

theorem passes_iff {front : List Text} {last : Text} (ends : write.path.EndsIn front last) :
    write.Passes home place ↔
      ∃ front, front <+: write.path.names.dropLast ∧ (write.path.start home).follow front = place := by
  rw [Passes, ends.names_eq, Location.isOnWay_concat]
  simp

theorem makes_of_perform (noLinks : before.HasNoLinks) (homed : before.HasHome) (named : write.EndsInName)
    (performed : write.perform before = .ok () after) : before.Admits write ∧ write.Makes before after := by
  obtain ⟨last, isLast, isName⟩ := named
  obtain ⟨front, inOrder⟩ := List.getLast?_eq_some_iff.mp isLast
  obtain ⟨between, created, gains, written⟩ := writeLines_ok noLinks performed
  have plain := gains.hasNoLinks noLinks
  obtain ⟨ends, short, way⟩ := way_of_writeFile plain (gains.hasHome homed) inOrder isName.speaks written
  obtain ⟨inside, isFree, rfl⟩ := writeFile_ok plain written
  rw [gains.place_eq] at inside isFree ⊢
  rw [gains.sameHome] at way
  have onWay (place : Location) (passes : write.Passes before.home place) :
      between.get? place = some .directory := by
    obtain ⟨front, isFront, rfl⟩ := (passes_iff ends).mp passes
    exact way front isFront
  have apart : ¬write.Passes before.home (before.place write.path) := by
    intro passes
    rcases isFree with missing | ⟨old, isFile⟩
    · simp [onWay _ passes] at missing
    · simp [onWay _ passes] at isFile
  have same (place : Location) (notOnWay : ¬write.Passes before.home place) :
      between.get? place = before.get? place := by
    rcases gains.others place (by simp) with same | ⟨-, -, passes⟩
    · exact same
    · exact absurd passes notOnWay
  refine ⟨⟨ends.faultless, short, ?_, ?_, apart⟩, ⟨gains.sameHome, ?_, ?_, ?_, ?_⟩⟩
  · intro place passes
    rcases gains.others place (by simp) with same | ⟨missing, -⟩
    · exact Or.inr (same ▸ onWay place passes)
    · exact Or.inl missing
  · have sameThere := same (write.place before.home) apart
    rwa [← sameThere]
  · exact get?_put_self between _ inside
  · intro place passes
    have different : place ≠ before.place write.path := by
      rintro rfl
      exact apart passes
    rw [get?_put_of_ne between _ different, onWay place passes]
  · intro place different notOnWay
    have isOther : place ≠ before.place write.path := different
    rw [get?_put_of_ne between _ isOther, same place notOnWay]
  · rw [rootItem?_put between _ inside, ← FileAction.left_of_ok created]
    exact createParent_rootItem? write.path before

theorem exists_perform_of_admits (noLinks : before.HasNoLinks) (homed : before.HasHome)
    (named : write.EndsInName) (admits : before.Admits write) :
    ∃ after, write.perform before = .ok () after := by
  obtain ⟨last, isLast, isName⟩ := named
  obtain ⟨front, inOrder⟩ := List.getLast?_eq_some_iff.mp isLast
  have ends : write.path.EndsIn front last := ⟨admits.faultless, inOrder, isName.speaks⟩
  obtain ⟨parent, isParent, sameStart, names, ladder⟩ := ends.exists_parent
  have start := Path.start_congr sameStart before.home
  have room : before.HasRoom (parent.start before.home) parent.names := by
    intro part isPart
    rw [names] at isPart
    exact start ▸ admits.room _ ((passes_iff ends).mpr ⟨part, isPart, rfl⟩)
  have short : AreShort parent.names := by
    rw [names]
    exact admits.short.mono (List.dropLast_subset _)
  obtain ⟨between, made, way⟩ := createEach_of_room noLinks homed ladder short room
  have created : createParent write.path before = .ok () between := by
    rw [createParent, isParent]
    exact FileAction.within_eq_ok_iff.mpr made
  have gains := createParent_gains noLinks write.path
  rw [FileAction.left_of_ok created] at gains
  have same : between.get? (write.place before.home) = before.get? (write.place before.home) := by
    rcases gains.others (write.place before.home) (by simp) with same | ⟨-, -, passes⟩
    · exact same
    · exact absurd passes admits.apart
  rw [names, start, ← gains.sameHome] at way
  have isLast : Path.isUnnamed write.path.last = false := by
    rw [ends.front_last_eq.2]
    exact isName.named
  have isFree := admits.free
  rw [← same] at isFree
  have written : between.writeFile write.path write.content = .ok _ :=
    writeFile_of_way ends admits.short isLast way (by rwa [gains.place_eq])
  exact ⟨_, writeLines_ok_iff.mpr ⟨between, created, written⟩⟩

/-! ### What one file changes for another -/

namespace Makes

theorem hasNoLinks (makes : write.Makes before after) (noLinks : before.HasNoLinks) : after.HasNoLinks := by
  intro place target isLink
  by_cases isPlace : place = write.place before.home
  · rw [isPlace, makes.isFile] at isLink
    simp at isLink
  · by_cases passes : write.Passes before.home place
    · rw [makes.onWay place passes] at isLink
      simp at isLink
    · exact noLinks place target (makes.others place isPlace passes ▸ isLink)

theorem hasHome (makes : write.Makes before after) (admits : before.Admits write) (homed : before.HasHome) :
    after.HasHome := by
  intro place isAround
  have isDirectory := homed place (makes.sameHome ▸ isAround)
  by_cases passes : write.Passes before.home place
  · exact makes.onWay place passes
  · have different : place ≠ write.place before.home := by
      rintro rfl
      rcases admits.free with missing | ⟨old, isFile⟩
      · simp [isDirectory] at missing
      · simp [isDirectory] at isFile
    rw [makes.others place different passes, isDirectory]

/-- Where there still is room for a second file, neither is on the way to the other. -/
theorem apart (makes : write.Makes before after) (admits : after.Admits other) :
    ¬write.Passes before.home (other.place before.home) ∧
      ¬other.Passes before.home (write.place before.home) := by
  obtain ⟨-, -, room, free, -⟩ := admits
  rw [makes.sameHome] at room free
  constructor
  · intro passes
    rcases free with missing | ⟨old, isFile⟩
    · simp [makes.onWay _ passes] at missing
    · simp [makes.onWay _ passes] at isFile
  · intro passes
    rcases room _ passes with missing | isDirectory
    · simp [makes.isFile] at missing
    · simp [makes.isFile] at isDirectory

/-- There is room for a second file behind the first if there is room for it already before. -/
theorem admits_iff (makes : write.Makes before after) (admits : before.Admits write)
    (different : other.place before.home ≠ write.place before.home)
    (notOnWay : ¬write.Passes before.home (other.place before.home))
    (notOnOther : ¬other.Passes before.home (write.place before.home)) :
    after.Admits other ↔ before.Admits other := by
  have samePlace := makes.others _ different notOnWay
  have sameRoom (place : Location) (passes : other.Passes before.home place) :
      (after.get? place = none ∨ after.get? place = some .directory) ↔
        (before.get? place = none ∨ before.get? place = some .directory) := by
    by_cases onWay : write.Passes before.home place
    · simp [makes.onWay place onWay, admits.room place onWay]
    · have notPlace : place ≠ write.place before.home := by
        rintro rfl
        exact notOnOther passes
      rw [makes.others place notPlace onWay]
  constructor
  · rintro ⟨faultless, short, room, free, apart⟩
    rw [makes.sameHome] at room free apart
    exact ⟨faultless, short, fun place passes => (sameRoom place passes).mp (room place passes),
      samePlace ▸ free, apart⟩
  · rintro ⟨faultless, short, room, free, apart⟩
    rw [← samePlace] at free
    refine ⟨faultless, short, ?_, ?_, ?_⟩
    all_goals rw [makes.sameHome]
    · exact fun place passes => (sameRoom place passes).mpr (room place passes)
    · exact free
    · exact apart

end Makes

/-! ### Many files -/

/-- Whether `after` is what writing all the files makes of `before`. The order of the list says nothing. -/
structure MakesAll (writes : List FileWrite) (before after : FileTree) : Prop where
  sameHome : after.home = before.home
  admits : ∀ write ∈ writes, before.Admits write
  apart : ∀ write ∈ writes, ∀ other ∈ writes, ¬other.Passes before.home (write.place before.home)
  areFiles : ∀ write ∈ writes, after.get? (write.place before.home) = some (.file write.content)
  onWay : ∀ write ∈ writes, ∀ place, write.Passes before.home place → after.get? place = some .directory
  others : ∀ place, (∀ write ∈ writes, write.place before.home ≠ place ∧ ¬write.Passes before.home place) →
    after.get? place = before.get? place
  root : after.rootItem? = before.rootItem?

theorem makesAll_nil : MakesAll [] before after ↔ before = after := by
  constructor
  · intro all
    exact (eq_of_get? all.sameHome (fun place => all.others place (by simp)) all.root).symm
  · rintro rfl
    exact ⟨rfl, by simp, by simp, by simp, by simp, fun _ _ => rfl, rfl⟩

section Cons

variable {rest : List FileWrite} (admits : before.Admits write) (makes : write.Makes before between)
  (distinct : ∀ other ∈ rest, write.place before.home ≠ other.place before.home)

include admits makes distinct

theorem MakesAll.tail (all : MakesAll (write :: rest) before after) : MakesAll rest between after := by
  refine ⟨all.sameHome.trans makes.sameHome.symm, ?_, ?_, ?_, ?_, ?_, all.root.trans makes.root.symm⟩
  · intro other member
    have inAll := List.mem_cons_of_mem write member
    exact (makes.admits_iff admits (distinct other member).symm (all.apart other inAll write List.mem_cons_self)
      (all.apart write List.mem_cons_self other inAll)).mpr (all.admits other inAll)
  · intro other member third isThird
    rw [makes.sameHome]
    exact all.apart other (List.mem_cons_of_mem write member) third (List.mem_cons_of_mem write isThird)
  · intro other member
    rw [makes.sameHome]
    exact all.areFiles other (List.mem_cons_of_mem write member)
  · intro other member
    rw [makes.sameHome]
    exact all.onWay other (List.mem_cons_of_mem write member)
  · intro place notRest
    rw [makes.sameHome] at notRest
    by_cases isPlace : place = write.place before.home
    · rw [isPlace, all.areFiles write List.mem_cons_self, makes.isFile]
    · by_cases passes : write.Passes before.home place
      · rw [all.onWay write List.mem_cons_self place passes, makes.onWay place passes]
      · rw [makes.others place isPlace passes]
        apply all.others place
        intro other member
        rcases List.mem_cons.mp member with rfl | isRest
        · exact ⟨Ne.symm isPlace, passes⟩
        · exact notRest other isRest

theorem MakesAll.cons (all : MakesAll rest between after) : MakesAll (write :: rest) before after := by
  obtain ⟨sameHome, areAdmitted, areApart, areFiles, onWay, others, root⟩ := all
  rw [makes.sameHome] at sameHome areApart areFiles onWay others
  have notOnOther {other : FileWrite} (member : other ∈ rest) :
      ¬other.Passes before.home (write.place before.home) :=
    (makes.apart (areAdmitted other member)).2
  have notOnWay {other : FileWrite} (member : other ∈ rest) :
      ¬write.Passes before.home (other.place before.home) :=
    (makes.apart (areAdmitted other member)).1
  refine ⟨sameHome, ?_, ?_, ?_, ?_, ?_, root.trans makes.root⟩
  · rintro other (_ | ⟨_, member⟩)
    · exact admits
    · exact (makes.admits_iff admits (distinct other member).symm (notOnWay member) (notOnOther member)).mp
        (areAdmitted other member)
  · rintro other (_ | ⟨_, member⟩) third (_ | ⟨_, isThird⟩)
    · exact admits.apart
    · exact notOnOther isThird
    · exact notOnWay member
    · exact areApart other member third isThird
  · rintro other (_ | ⟨_, member⟩)
    · rw [others (write.place before.home), makes.isFile]
      exact fun third isThird => ⟨(distinct third isThird).symm, notOnOther isThird⟩
    · exact areFiles other member
  · rintro other (_ | ⟨_, member⟩) place passes
    · by_cases onRest : ∃ third ∈ rest, third.Passes before.home place
      · obtain ⟨third, isThird, passesThird⟩ := onRest
        exact onWay third isThird place passesThird
      · rw [others place, makes.onWay place passes]
        intro third isThird
        refine ⟨?_, fun passesThird => onRest ⟨third, isThird, passesThird⟩⟩
        rintro rfl
        exact notOnWay isThird passes
    · exact onWay other member place passes
  · intro place notAny
    obtain ⟨notPlace, notPassed⟩ := notAny write List.mem_cons_self
    rw [others place fun other member => notAny other (List.mem_cons_of_mem write member),
      makes.others place notPlace.symm notPassed]

end Cons

/-- Files can be written one after the other if there is room for each of them and none is on the way to
another. -/
theorem performAll_iff {writes : List FileWrite} (noLinks : before.HasNoLinks) (homed : before.HasHome)
    (named : ∀ write ∈ writes, write.EndsInName)
    (distinct : writes.Pairwise fun first second =>
      first.place before.home ≠ second.place before.home) :
    performAll writes before = .ok () after ↔ MakesAll writes before after := by
  induction writes generalizing before with
  | nil =>
      rw [makesAll_nil]
      exact FileAction.pure_eq_ok_iff.trans (and_iff_right rfl)
  | cons write rest ih =>
      obtain ⟨apart, distinct⟩ := List.pairwise_cons.mp distinct
      have isNamed := named write List.mem_cons_self
      have areNamed := fun other member => named other (List.mem_cons_of_mem write member)
      have inOrder : performAll (write :: rest) = write.perform >>= fun _ => performAll rest := rfl
      have later {between : FileTree} (first : write.perform before = .ok () between) :
          performAll rest between = .ok () after ↔ MakesAll rest between after := by
        obtain ⟨admits, makes⟩ := makes_of_perform noLinks homed isNamed first
        exact ih (makes.hasNoLinks noLinks) (makes.hasHome admits homed) areNamed
          (makes.sameHome ▸ distinct)
      rw [inOrder, FileAction.bind_eq_ok_iff]
      constructor
      · rintro ⟨_, between, first, others⟩
        obtain ⟨admits, makes⟩ := makes_of_perform noLinks homed isNamed first
        exact ((later first).mp others).cons admits makes apart
      · intro all
        obtain ⟨between, first⟩ :=
          exists_perform_of_admits noLinks homed isNamed (all.admits write List.mem_cons_self)
        obtain ⟨admits, makes⟩ := makes_of_perform noLinks homed isNamed first
        exact ⟨(), between, first, (later first).mpr (all.tail admits makes apart)⟩

/-- What writing files does depends only on which files they are. -/
theorem MakesAll.of_mem_iff {writes others : List FileWrite} (all : MakesAll writes before after)
    (same : ∀ write, write ∈ writes ↔ write ∈ others) : MakesAll others before after := by
  obtain ⟨sameHome, admits, apart, areFiles, onWay, others, root⟩ := all
  simp only [same] at admits apart areFiles onWay others
  exact ⟨sameHome, admits, apart, areFiles, onWay, others, root⟩

end FileWrite

end NameMigration
