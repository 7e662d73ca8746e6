import Mathlib.Data.List.Induction
import NameMigration.FileTree.Lookup

/-!
The names that a path goes through, and where it leads when no link is in the way. A path joined to
another goes on with its names, and the path of something inside a directory, moved under another one,
has the names of that directory in front of the same names behind.
-/

namespace NameMigration

open Path.Parts (isSilent)

structure IsFileName (name : Text) : Prop where
  speaks : isSilent name = false
  ne_parent : name ≠ ['.', '.']
  unslashed : '/' ∉ name

instance (name : Text) : Decidable (IsFileName name) :=
  decidable_of_iff (isSilent name = false ∧ name ≠ ['.', '.'] ∧ '/' ∉ name)
    ⟨fun ⟨speaks, ne_parent, unslashed⟩ => ⟨speaks, ne_parent, unslashed⟩,
      fun isName => ⟨isName.speaks, isName.ne_parent, isName.unslashed⟩⟩

theorem IsFileName.splitOn_eq {name : Text} (isName : IsFileName name) :
    name.splitOn '/' = [name] :=
  List.splitOn_eq_singleton isName.unslashed

theorem IsFileName.ne_nil {name : Text} (isName : IsFileName name) : name ≠ [] := by
  rintro rfl
  exact absurd isName.speaks (by decide)

theorem IsFileName.named {name : Text} (isName : IsFileName name) : Path.isUnnamed name = false := by
  simp [Path.isUnnamed, isName.speaks, isName.ne_parent]

theorem filter_fileNames {names : List Text} (areNames : ∀ name ∈ names, IsFileName name) :
    names.filter (!isSilent ·) = names := by
  rw [List.filter_eq_self]
  intro name member
  simp [(areNames name member).speaks]

/-! ### Following steps -/

namespace Location

def next (location : Location) (step : Text) : Location :=
  if isSilent step then location
  else if step = ['.', '.'] then location.dropLast
  else location ++ [step]

def follow (location : Location) (steps : List Text) : Location :=
  steps.foldl next location

section Step

variable {location : Location} {step : Text}

theorem next_silent (silent : isSilent step = true) : location.next step = location :=
  if_pos silent

@[simp] theorem next_parent (location : Location) : location.next ['.', '.'] = location.dropLast := rfl

theorem next_name (named : Path.isUnnamed step = false) : location.next step = location ++ [step] := by
  simp only [Path.isUnnamed, Bool.or_eq_false_iff, decide_eq_false_iff_not] at named
  simp [next, named]

/-- A step without a name leads to a place that is there already. -/
theorem next_unnamed (unnamed : Path.isUnnamed step = true) : location.next step <+: location := by
  simp only [Path.isUnnamed, Bool.or_eq_true, decide_eq_true_eq] at unnamed
  rcases unnamed with silent | rfl
  · simp [next_silent silent]
  · exact List.dropLast_prefix location

end Step

@[simp] theorem follow_nil (location : Location) : location.follow [] = location := rfl

@[simp] theorem follow_cons (location : Location) (step : Text) (rest : List Text) :
    location.follow (step :: rest) = (location.next step).follow rest := rfl

theorem follow_append (location : Location) (first second : List Text) :
    location.follow (first ++ second) = (location.follow first).follow second :=
  List.foldl_append

theorem follow_concat (location : Location) (front : List Text) (last : Text) :
    location.follow (front ++ [last]) = (location.follow front).next last :=
  follow_append location front [last]

theorem follow_filter (location : Location) (steps : List Text) :
    location.follow (steps.filter (!isSilent ·)) = location.follow steps := by
  induction steps generalizing location with
  | nil => rfl
  | cons step rest ih => cases silent : isSilent step <;> simp [next, silent, ih]

theorem follow_fileNames {names : List Text} (areNames : ∀ name ∈ names, IsFileName name)
    (location : Location) : location.follow names = location ++ names := by
  induction names generalizing location with
  | nil => simp
  | cons name rest ih =>
      have others := ih fun other member => areNames other (List.mem_cons_of_mem name member)
      rw [follow_cons, next_name (areNames name (by simp)).named, others]
      simp

/-! ### Steps that never leave a directory -/

/-- Where steps lead inside a directory. Nothing is reached by steps that leave it. -/
def descend? (below : Location) : (steps : List Text) → Option Location
  | [] => some below
  | step :: rest =>
      if step = ['.', '.'] ∧ below = [] then none else descend? (below.next step) rest

/-- Steps that stay inside a directory lead to the same place in it, wherever it is. -/
theorem follow_of_descend? {steps : List Text} {below reached : Location} (location : Location)
    (leads : below.descend? steps = some reached) :
    (location ++ below).follow steps = location ++ reached := by
  induction steps generalizing below with
  | nil =>
      obtain rfl := Option.some_inj.mp leads
      rfl
  | cons step rest ih =>
      rw [descend?] at leads
      split at leads
      · simp at leads
      · rename_i stays
        have sameStep : (location ++ below).next step = location ++ below.next step := by
          by_cases silent : isSilent step = true
          · rw [next_silent silent, next_silent silent]
          · by_cases isParent : step = ['.', '.']
            · have inside : below ≠ [] := fun atTop => stays ⟨isParent, atTop⟩
              rw [isParent, next_parent, next_parent, List.dropLast_append_of_ne_nil inside]
            · have named : Path.isUnnamed step = false := by simp [Path.isUnnamed, silent, isParent]
              rw [next_name named, next_name named, List.append_assoc]
        rw [follow_cons, sameStep]
        exact ih leads

end Location

/-! ### Where a path leads -/

namespace Path

/-- The names of the path and its steps to parents. -/
def names (path : Path) : List Text :=
  (path.splitOn '/').filter (!isSilent ·)

end Path

/-- Where the path leads in the tree when no link is in the way. -/
def FileTree.place (tree : FileTree) (path : Path) : Location :=
  (path.start tree.home).follow path.names

theorem FileTree.place_congr {first second : FileTree} (sameHome : first.home = second.home) (path : Path) :
    first.place path = second.place path := by
  rw [place, place, sameHome]

theorem IsFileName.isAbsolute_eq {name : Text} (isName : IsFileName name) : Path.isAbsolute name = false := by
  cases name with
  | nil => rfl
  | cons c rest =>
      have different : c ≠ '/' := by
        rintro rfl
        exact isName.unslashed (by simp)
      simp [Path.isAbsolute, different]

theorem IsFileName.names_eq {name : Text} (isName : IsFileName name) : Path.names name = [name] := by
  rw [Path.names, isName.splitOn_eq]
  simp [isName.speaks]

namespace Path

variable {path base relative : Path} {name : Text}

theorem filter_nonempty (steps : List Text) :
    (steps.filter (· ≠ [])).filter (!isSilent ·) = steps.filter (!isSilent ·) := by
  rw [List.filter_filter]
  apply List.filter_congr
  intro step _
  by_cases empty : step = [] <;> simp [empty, isSilent]

theorem filter_steps (path : Path) : path.steps.filter (!isSilent ·) = path.names := by
  unfold steps
  rw [List.filter_append, filter_nonempty]
  split <;> simp [names, isSilent]

theorem follow_steps (location : Location) (path : Path) :
    location.follow path.steps = location.follow path.names := by
  rw [← filter_steps, Location.follow_filter]

theorem ne_nil_of_fault? (faultless : path.fault? = none) : path ≠ [] := by
  rintro rfl
  exact absurd faultless (by decide)

/-! ### The last step of a path -/

theorem front_concat_last (someSteps : path.steps.filter (· ≠ []) ≠ []) :
    path.steps.filter (· ≠ []) = path.front ++ [path.last] := by
  rw [front, last, List.getLast?_eq_some_getLast someSteps, Option.getD_some,
    List.dropLast_concat_getLast someSteps]

theorem front_last_of_no_steps (noSteps : path.steps.filter (· ≠ []) = []) :
    path.front = [] ∧ path.last = [] := by
  rw [front, last, noSteps]
  exact ⟨rfl, rfl⟩

theorem follow_front_last (location : Location) (path : Path) :
    (location.follow path.front).next path.last = location.follow path.names := by
  rw [← Location.follow_concat, ← filter_steps, ← filter_nonempty, Location.follow_filter]
  by_cases noSteps : path.steps.filter (· ≠ []) = []
  · obtain ⟨isFront, isLast⟩ := front_last_of_no_steps noSteps
    rw [noSteps, isFront, isLast]
    rfl
  · rw [front_concat_last noSteps]

theorem steps_eq (path : Path) :
    path.steps = path.steps.filter (· ≠ []) ++ if path.getLast? = some '/' then [[]] else [] := by
  unfold steps
  split <;> simp

theorem follow_names_named (location : Location) (named : isUnnamed path.last = false) :
    location.follow path.names = location.follow path.front ++ [path.last] := by
  rw [← follow_front_last, Location.next_name named]

theorem nil_notMem_front (path : Path) : [] ∉ path.front := by
  intro member
  simpa using List.dropLast_subset _ member

/-- Only a path of nothing but slashes has no other steps. -/
theorem getLast?_of_no_steps (nonempty : path ≠ []) (noSteps : path.steps.filter (· ≠ []) = []) :
    path.getLast? = some '/' := by
  have emptyPieces : ∀ piece ∈ path.splitOn '/', piece = [] := by
    intro piece member
    by_contra spoken
    have isStep : piece ∈ path.steps := by simp [steps, member, spoken]
    have kept : piece ∈ path.steps.filter (· ≠ []) := List.mem_filter.mpr ⟨isStep, by simpa using spoken⟩
    rw [noSteps] at kept
    exact absurd kept List.not_mem_nil
  have slashes : ∀ c ∈ path, c = '/' := by
    intro c member
    have joined : Text.joinWith ['/'] (path.splitOn '/') = path := List.intercalate_splitOn '/'
    obtain ⟨first, rest, parts⟩ := List.exists_cons_of_ne_nil (List.splitOn_ne_nil '/' path)
    rw [parts] at joined emptyPieces
    rw [← joined, Text.joinWith_cons, emptyPieces first (by simp), List.nil_append, List.mem_flatMap] at member
    obtain ⟨piece, isPiece, inPiece⟩ := member
    simpa [emptyPieces piece (List.mem_cons_of_mem first isPiece)] using inPiece
  obtain ⟨front, c, rfl⟩ := (List.eq_nil_or_concat path).resolve_left nonempty
  simp [slashes c (by simp)]

theorem front_last_prefix (nonempty : path ≠ []) : path.front ++ [path.last] <+: path.steps := by
  by_cases noSteps : path.steps.filter (· ≠ []) = []
  · obtain ⟨isFront, isLast⟩ := front_last_of_no_steps noSteps
    have isSteps := path.steps_eq
    rw [noSteps, if_pos (getLast?_of_no_steps nonempty noSteps), List.nil_append] at isSteps
    simp [isFront, isLast, isSteps]
  · rw [← front_concat_last noSteps]
    conv_rhs => rw [steps_eq]
    exact List.prefix_append _ _

theorem start_congr {other : Path} (sameStart : path.isAbsolute = other.isAbsolute) (home : Location) :
    path.start home = other.start home := by
  rw [start, start, sameStart]

/-! ### Joining paths -/

theorem isAbsolute_eq_false_of_head (isRelative : path.isAbsolute = false) (nonempty : path ≠ [])
    (more : Text) : isAbsolute (path ++ more) = false := by
  obtain ⟨c, rest, rfl⟩ := List.exists_cons_of_ne_nil nonempty
  exact isRelative

theorem eq_concat_slash (slashed : path.getLast? = some '/') : ∃ front, path = front ++ ['/'] :=
  List.getLast?_eq_some_iff.mp slashed

theorem names_concat_slash (front : Path) : names (front ++ ['/']) = names front := by
  simp only [names, List.splitOn_append_cons_self, List.splitOn_nil, List.filter_append]
  simp [isSilent]

theorem names_append_slash (front relative : Path) :
    names (front ++ '/' :: relative) = names front ++ names relative := by
  simp only [names, List.splitOn_append_cons_self, List.filter_append]

theorem names_join (base : Path) (isRelative : relative.isAbsolute = false) :
    (base.join relative).names = base.names ++ relative.names := by
  unfold join
  rw [isRelative, if_neg (by decide)]
  split
  · rename_i ends
    rcases ends with rfl | slashed
    · rfl
    · obtain ⟨front, rfl⟩ := eq_concat_slash slashed
      rw [List.append_assoc, List.singleton_append, names_append_slash, names_concat_slash]
  · exact names_append_slash base relative

theorem exists_splitOn_join (base : Path) (isRelative : relative.isAbsolute = false) :
    ∃ front, (base.join relative).splitOn '/' = front ++ relative.splitOn '/' := by
  unfold join
  rw [isRelative, if_neg (by decide)]
  split
  · rename_i ends
    rcases ends with rfl | slashed
    · exact ⟨[], rfl⟩
    · obtain ⟨front, rfl⟩ := eq_concat_slash slashed
      exact ⟨front.splitOn '/', by
        rw [List.append_assoc, List.singleton_append, List.splitOn_append_cons_self]⟩
  · exact ⟨base.splitOn '/', List.splitOn_append_cons_self base relative⟩

theorem join_nil (base : Path) : base.join [] = [] ∨ (base.join []).getLast? = some '/' := by
  unfold join
  rw [if_neg (by decide)]
  split
  · rename_i ends
    simpa using ends
  · exact Or.inr List.getLast?_concat

theorem isAbsolute_join (base : Path) (isRelative : relative.isAbsolute = false) :
    (base.join relative).isAbsolute = base.isAbsolute := by
  unfold join
  rw [isRelative, if_neg (by decide)]
  cases base with
  | nil => simpa [isAbsolute] using isRelative
  | cons c rest => split <;> rfl

theorem place_join (tree : FileTree) (base : Path) (isRelative : relative.isAbsolute = false) :
    tree.place (base.join relative) = (tree.place base).follow relative.names := by
  rw [FileTree.place, start_congr (isAbsolute_join base isRelative), names_join base isRelative,
    Location.follow_append]
  rfl

/-! ### Paths that go on from a directory -/

/-- Whether the path is that of the directory with names behind it, as a walk through the directory
makes it. The pieces in front of the names are those of the directory but for silent ones. -/
structure GoesOn (base : Path) (names : List Text) (path : Path) : Prop where
  isAbsolute_eq : path.isAbsolute = base.isAbsolute
  parts : ∃ front, path.splitOn '/' = front ++ names ∧ front.head? = (base.splitOn '/').head? ∧
    front.filter (!isSilent ·) = base.names

theorem GoesOn.refl (base : Path) : base.GoesOn [] base :=
  ⟨rfl, base.splitOn '/', by simp, rfl, rfl⟩

/-- A slash at the end of a path is not doubled when a name is joined to it. -/
theorem splitOn_join (nonempty : path ≠ []) (isName : IsFileName name) :
    ∃ front, (path.join name).splitOn '/' = front ++ [name] ∧ front ≠ [] ∧
      (path.splitOn '/' = front ∨ path.splitOn '/' = front ++ [[]]) := by
  unfold join
  rw [isName.isAbsolute_eq, if_neg (by decide)]
  split
  · rename_i ends
    obtain ⟨front, rfl⟩ := eq_concat_slash (ends.resolve_left nonempty)
    refine ⟨front.splitOn '/', ?_, List.splitOn_ne_nil _ _, Or.inr ?_⟩
    · rw [List.append_assoc, List.singleton_append, List.splitOn_append_cons_self, isName.splitOn_eq]
    · rw [List.splitOn_append_cons_self, List.splitOn_nil]
  · refine ⟨path.splitOn '/', ?_, List.splitOn_ne_nil _ _, Or.inl rfl⟩
    rw [List.splitOn_append_cons_self, isName.splitOn_eq]

theorem GoesOn.join {names : List Text} (goesOn : base.GoesOn names path) (nonempty : path ≠ [])
    (areNames : ∀ name ∈ names, IsFileName name) (isName : IsFileName name) :
    base.GoesOn (names ++ [name]) (path.join name) := by
  refine ⟨(isAbsolute_join path isName.isAbsolute_eq).trans goesOn.isAbsolute_eq, ?_⟩
  obtain ⟨front, parts, sameHead, sameNames⟩ := goesOn.parts
  obtain ⟨before, joined, someBefore, same | slashed⟩ := splitOn_join nonempty isName
  · exact ⟨front, by rw [joined, ← same, parts, List.append_assoc], sameHead, sameNames⟩
  · -- No file name is empty, so the empty piece at the end is one of the directory.
    rcases List.eq_nil_or_concat names with rfl | ⟨others, last, rfl⟩
    · rw [List.append_nil] at parts
      rw [slashed] at parts
      refine ⟨before, by simpa using joined, ?_, ?_⟩
      · rw [← sameHead, ← parts, List.head?_append]
        obtain ⟨first, rest, rfl⟩ := List.exists_cons_of_ne_nil someBefore
        rfl
      · rw [← sameNames, ← parts]
        simp [isSilent]
    · rw [slashed, List.concat_eq_append, ← List.append_assoc] at parts
      have isEmpty := (List.append_inj' parts rfl).2
      have isLast := areNames last (by simp)
      exact absurd (List.singleton_inj.mp isEmpty).symm isLast.ne_nil

theorem join_ne_nil (isName : IsFileName name) : path.join name ≠ [] := by
  unfold join
  rw [isName.isAbsolute_eq, if_neg (by decide)]
  split
  · exact List.append_ne_nil_of_right_ne_nil path isName.ne_nil
  · simp

theorem goesOn_foldl_join {names : List Text} (nonempty : base ≠ [])
    (areNames : ∀ name ∈ names, IsFileName name) :
    base.GoesOn names (names.foldl Path.join base) ∧ names.foldl Path.join base ≠ [] := by
  induction names using List.reverseRecOn with
  | nil => exact ⟨GoesOn.refl base, nonempty⟩
  | append_singleton front last ih =>
      obtain ⟨goesOn, someFront⟩ := ih fun name member => areNames name (by simp [member])
      have isLast := areNames last (by simp)
      rw [List.foldl_append]
      exact ⟨goesOn.join someFront (fun name member => areNames name (by simp [member])) isLast,
        join_ne_nil isLast⟩

end Path
end NameMigration
