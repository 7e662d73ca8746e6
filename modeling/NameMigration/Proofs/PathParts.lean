import NameMigration.Proofs.PathNames

/-!
The parts of a path: its lead and its pieces. What a path inside a directory is relative to it are just
the names behind the directory, and the directories around what a path leads to lie on the way there.
-/

namespace NameMigration

namespace Path

open Parts (isSilent pieceComponent toPath)

variable {path base target around : Path} {names kept : List Text}

theorem slash_notMem_of_mem_splitOn {piece : Text} (isPiece : piece ∈ path.splitOn '/') :
    '/' ∉ piece :=
  fun inPiece => (Text.mem_of_mem_splitOn isPiece inPiece).2 rfl

/-- The first piece of an absolute path is the empty one in front of its slash. -/
theorem isAbsolute_iff_head :
    path.isAbsolute = true ↔ path ≠ [] ∧ (path.splitOn '/').head? = some [] := by
  cases path with
  | nil => simp [isAbsolute]
  | cons c rest =>
      by_cases isSlash : c = '/'
      · have parts : ('/' :: rest).splitOn '/' = [] :: rest.splitOn '/' :=
          List.splitOn_append_cons_self [] rest
        simp [isSlash, isAbsolute, parts]
      · have joined : ['/'].intercalate ((c :: rest).splitOn '/') = c :: rest :=
          List.intercalate_splitOn '/'
        have someHead : ((c :: rest).splitOn '/').head? ≠ some [] := by
          intro emptyHead
          obtain ⟨others, parts⟩ := List.head?_eq_some_iff.mp emptyHead
          rw [parts] at joined
          cases others with
          | nil => simp at joined
          | cons second more =>
              rw [List.intercalate_cons_cons] at joined
              exact isSlash (List.cons_eq_cons.mp joined).1.symm
        simp [isAbsolute, isSlash, someHead]

theorem splitOn_toPath_nil (isFront : kept <+: path.splitOn '/') (nonempty : kept ≠ []) :
    (toPath ⟨[], kept⟩).splitOn '/' = kept := by
  refine List.splitOn_intercalate '/' ?_ nonempty
  intro piece member
  exact slash_notMem_of_mem_splitOn (isFront.subset member)

/-! ### Lead and pieces -/

/-- The empty piece in front of a slash and a dot at the front are the lead, and the pieces are what
stands between slashes. -/
theorem ofPath_eq (path : Path) : Parts.ofPath path =
    if path.isAbsolute then ⟨['/'], (path.splitOn '/').tail⟩
    else if (path.splitOn '/').head? = some ['.'] then ⟨['.'], [] :: (path.splitOn '/').tail⟩
    else ⟨[], path.splitOn '/'⟩ := by
  unfold Parts.ofPath
  split
  · rename_i rest
    have parts : ('/' :: rest : Path).splitOn '/' = [] :: rest.splitOn '/' :=
      List.splitOn_append_cons_self [] rest
    simp [isAbsolute, parts]
  · rfl
  · rename_i rest
    have parts : ('.' :: '/' :: rest : Path).splitOn '/' = ['.'] :: rest.splitOn '/' :=
      List.splitOn_append_cons_self ['.'] rest
    simp [isAbsolute, parts]
  · rename_i notSlash notDot notDotSlash
    have isRelative : path.isAbsolute = false := by
      rw [← Bool.not_eq_true, isAbsolute, decide_eq_true_eq, List.head?_eq_some_iff]
      rintro ⟨rest, isSlash⟩
      exact notSlash rest isSlash
    rw [if_neg (by simp [isRelative]), if_neg]
    intro dotFirst
    have joined : ['/'].intercalate (path.splitOn '/') = path := List.intercalate_splitOn '/'
    obtain ⟨rest, parts⟩ := List.head?_eq_some_iff.mp dotFirst
    rw [parts] at joined
    cases rest with
    | nil => exact notDot joined.symm
    | cons second others =>
        rw [List.intercalate_cons_cons] at joined
        exact notDotSlash _ joined.symm

theorem exists_of_isAbsolute (isAbsolute : path.isAbsolute = true) :
    ∃ rest, path.splitOn '/' = [] :: rest :=
  List.head?_eq_some_iff.mp (isAbsolute_iff_head.mp isAbsolute).2

theorem filter_pieces_ofPath (path : Path) :
    (Parts.ofPath path).pieces.filter (!isSilent ·) = path.names := by
  rw [ofPath_eq path, Path.names]
  split
  · rename_i isAbsolute
    obtain ⟨rest, parts⟩ := exists_of_isAbsolute isAbsolute
    simp [parts, isSilent]
  · split
    · rename_i dotFirst
      obtain ⟨rest, parts⟩ := List.head?_eq_some_iff.mp dotFirst
      simp [parts, isSilent]
    · rfl

theorem components_eq (path : Path) :
    path.components = (Parts.ofPath path).leadComponents ++ path.names.map pieceComponent := by
  rw [components, Parts.components, filter_pieces_ofPath path]

theorem components_ne_nil (nonempty : path ≠ []) : path.components ≠ [] := by
  rw [components_eq path, ofPath_eq path, Path.names]
  split
  · simp [Parts.leadComponents]
  · rename_i isRelative
    obtain ⟨first, rest, parts⟩ := List.exists_cons_of_ne_nil (List.splitOn_ne_nil '/' path)
    by_cases dotFirst : first = ['.']
    · simp [parts, dotFirst, Parts.leadComponents]
    · have someFirst : first ≠ [] := by
        rintro rfl
        exact isRelative (isAbsolute_iff_head.mpr ⟨nonempty, by simp [parts]⟩)
      have speaks : isSilent first = false := by simp [isSilent, someFirst, dotFirst]
      simp [parts, speaks]

/-! ### What a path inside a directory is relative to it -/

namespace GoesOn

theorem names_eq (goesOn : base.GoesOn names path) (areNames : ∀ name ∈ names, IsFileName name) :
    path.names = base.names ++ names := by
  obtain ⟨front, parts, _, sameNames⟩ := goesOn.parts
  rw [Path.names, parts, List.filter_append, sameNames, filter_fileNames areNames]

theorem ofPath (goesOn : base.GoesOn names path) :
    (Parts.ofPath path).lead = (Parts.ofPath base).lead ∧
      ∃ front, (Parts.ofPath path).pieces = front ++ names ∧
        front.filter (!isSilent ·) = base.names := by
  obtain ⟨front, parts, sameHead, sameNames⟩ := goesOn.parts
  obtain ⟨first, rest, baseParts⟩ := List.exists_cons_of_ne_nil (List.splitOn_ne_nil '/' base)
  rw [baseParts, List.head?_cons] at sameHead
  obtain ⟨others, rfl⟩ := List.head?_eq_some_iff.mp sameHead
  rw [ofPath_eq base, ofPath_eq path, goesOn.isAbsolute_eq, parts, baseParts]
  simp only [List.cons_append, List.head?_cons, List.tail_cons, Option.some_inj]
  split
  · rename_i isAbsolute
    obtain ⟨_, emptyFirst⟩ := exists_of_isAbsolute isAbsolute
    obtain rfl : first = [] := (List.cons_eq_cons.mp (baseParts.symm.trans emptyFirst)).1
    exact ⟨rfl, others, rfl, by simpa [isSilent] using sameNames⟩
  · split
    · rename_i isDot
      subst isDot
      exact ⟨rfl, [] :: others, rfl, by simpa [isSilent] using sameNames⟩
    · exact ⟨rfl, first :: others, rfl, sameNames⟩

end GoesOn

/-- Behind as many pieces as the front says something with, what is left says what stands behind. -/
theorem dropWhile_dropComponents (front behind : List Text) :
    (Parts.dropComponents (front.filter (!isSilent ·)).length (front ++ behind)).dropWhile isSilent =
      behind.dropWhile isSilent := by
  induction front with
  | nil => simp [Parts.dropComponents]
  | cons piece rest ih =>
      cases silent : isSilent piece with
      | true =>
          cases count : (rest.filter (!isSilent ·)).length with
          | zero =>
              rw [count] at ih
              simpa [silent, count, Parts.dropComponents] using ih
          | succ more =>
              rw [count] at ih
              simpa [silent, count, Parts.dropComponents] using ih
      | false => simpa [silent, Parts.dropComponents] using ih

theorem trimEnd_fileNames (areNames : ∀ name ∈ names, IsFileName name) :
    Parts.trimEnd (names.dropWhile isSilent) = names := by
  have keeps (others : List Text) (areOthers : ∀ name ∈ others, IsFileName name) :
      others.dropWhile isSilent = others := by
    cases others with
    | nil => rfl
    | cons first rest => simp [(areOthers first (by simp)).speaks]
  rw [Parts.trimEnd, keeps names areNames,
    keeps _ fun name member => areNames name (List.mem_reverse.mp member), List.reverse_reverse]

theorem GoesOn.relativeTo?_eq (goesOn : base.GoesOn names path) (nonempty : base ≠ [])
    (areNames : ∀ name ∈ names, IsFileName name) :
    base.relativeTo? path = some (Text.joinWith ['/'] names) := by
  obtain ⟨sameLead, front, pieces, sameNames⟩ := goesOn.ofPath
  have sameLeads : (Parts.ofPath path).leadComponents = (Parts.ofPath base).leadComponents := by
    rw [Parts.leadComponents, sameLead, Parts.leadComponents]
  have goesBehind : path.components = base.components ++ names.map pieceComponent := by
    rw [components_eq path, components_eq base, goesOn.names_eq areNames, sameLeads, List.map_append,
      List.append_assoc]
  have count : base.components.length - (Parts.ofPath path).leadComponents.length =
      (front.filter (!isSilent ·)).length := by
    rw [components_eq base, sameLeads, sameNames, List.length_append, List.length_map]
    omega
  unfold relativeTo?
  simp only
  rw [if_pos (by simp [goesBehind]), if_neg (by simp [components_ne_nil nonempty]), count,
    pieces, dropWhile_dropComponents, trimEnd_fileNames areNames]
  rfl

theorem joinWith_isAbsolute (areNames : ∀ name ∈ names, IsFileName name) :
    isAbsolute (Text.joinWith ['/'] names) = false := by
  cases names with
  | nil => rfl
  | cons first rest =>
      have isFirst := areNames first (by simp)
      have firstRelative := isFirst.isAbsolute_eq
      cases rest with
      | nil => simpa [Text.joinWith] using firstRelative
      | cons second others =>
          rw [Text.joinWith, List.intercalate_cons_cons, List.append_assoc]
          exact isAbsolute_eq_false_of_head firstRelative isFirst.ne_nil _

theorem names_joinWith (areNames : ∀ name ∈ names, IsFileName name) :
    Path.names (Text.joinWith ['/'] names) = names := by
  by_cases isEmpty : names = []
  · rw [isEmpty]
    rfl
  · rw [Path.names, Text.joinWith,
      List.splitOn_intercalate '/' (fun name member => (areNames name member).unslashed) isEmpty,
      filter_fileNames areNames]

/-- The place of what is inside a directory, below another directory. -/
theorem place_placed (tree : FileTree) (target : Path) (areNames : ∀ name ∈ names, IsFileName name) :
    tree.place (target.join (Text.joinWith ['/'] names)) = tree.place target ++ names := by
  rw [place_join tree target (joinWith_isAbsolute areNames), names_joinWith areNames,
    Location.follow_fileNames areNames]

theorem GoesOn.fileName?_eq {name : Text} (goesOn : base.GoesOn (names ++ [name]) path)
    (areNames : ∀ other ∈ names ++ [name], IsFileName other) : path.fileName? = some name := by
  have isName := areNames name (by simp)
  have component : pieceComponent name = .name name := by
    simp [pieceComponent, isName.ne_parent]
  rw [fileName?, components_eq path, goesOn.names_eq areNames]
  simp [component]

/-! ### The directories around what a path leads to -/

theorem mem_outer {lead : Text} {pieces : List Text} (isAround : around ∈ Parts.outer lead pieces) :
    around = [] ∨ ∃ behind kept, pieces = behind ++ kept ∧ behind.filter (!isSilent ·) ≠ [] ∧
      around = toPath ⟨lead, kept.reverse⟩ := by
  induction pieces with
  | nil =>
      unfold Parts.outer at isAround
      split at isAround
      · exact Or.inl (by simpa using isAround)
      · simp at isAround
  | cons piece others ih =>
      have later (isLater : around ∈ Parts.outer lead others) : around = [] ∨ ∃ behind kept,
          piece :: others = behind ++ kept ∧ behind.filter (!isSilent ·) ≠ [] ∧
            around = toPath ⟨lead, kept.reverse⟩ := by
        rcases ih isLater with empty | ⟨behind, kept, rfl, speaks, same⟩
        · exact Or.inl empty
        · refine Or.inr ⟨piece :: behind, kept, rfl, ?_, same⟩
          rw [List.filter_cons]
          split
          · simp
          · exact speaks
      unfold Parts.outer at isAround
      split at isAround
      · exact later isAround
      · rename_i speaks
        rcases List.mem_cons.mp isAround with nearest | isLater
        · refine Or.inr ⟨piece :: others.takeWhile isSilent, others.dropWhile isSilent, ?_, ?_, nearest⟩
          · rw [List.cons_append, List.takeWhile_append_dropWhile]
          · simp [speaks]
        · exact later isLater

theorem toPath_slash {pieces : List Text} (nonempty : pieces ≠ []) :
    toPath ⟨['/'], pieces⟩ = toPath ⟨[], [] :: pieces⟩ := by
  obtain ⟨first, others, rfl⟩ := List.exists_cons_of_ne_nil nonempty
  rfl

theorem toPath_dot (pieces : List Text) : toPath ⟨['.'], [] :: pieces⟩ = toPath ⟨[], ['.'] :: pieces⟩ := by
  cases pieces <;> rfl

/-- The first pieces of a path, behind its lead, make a path with the first of its names. -/
theorem toPath_front (isFront : kept <+: (Parts.ofPath path).pieces) (someNames : path.names ≠ []) :
    (toPath ⟨(Parts.ofPath path).lead, kept⟩).isAbsolute = path.isAbsolute ∧
      (toPath ⟨(Parts.ofPath path).lead, kept⟩).names = kept.filter (!isSilent ·) := by
  have nonempty : path ≠ [] := by
    rintro rfl
    exact someNames rfl
  rw [ofPath_eq path] at isFront ⊢
  cases isAbsolute : path.isAbsolute with
  | true =>
      obtain ⟨rest, parts⟩ := exists_of_isAbsolute isAbsolute
      simp only [isAbsolute, if_true, parts, List.tail_cons] at isFront ⊢
      cases kept with
      | nil => exact ⟨rfl, rfl⟩
      | cons first others =>
          have isWhole : [] :: first :: others <+: path.splitOn '/' := by simpa [parts] using isFront
          have pieces := splitOn_toPath_nil isWhole (by simp)
          refine ⟨rfl, ?_⟩
          rw [Path.names, toPath_slash (by simp), pieces]
          simp [isSilent]
  | false =>
      simp only [isAbsolute, Bool.false_eq_true, if_false] at isFront ⊢
      split
      · rename_i dotFirst
        rw [if_pos dotFirst] at isFront
        cases kept with
        | nil => exact ⟨rfl, rfl⟩
        | cons first rest =>
            obtain ⟨rfl, isRest⟩ := List.cons_prefix_cons.mp isFront
            obtain ⟨others, pathParts⟩ := List.head?_eq_some_iff.mp dotFirst
            have isWhole : ['.'] :: rest <+: path.splitOn '/' := by simpa [pathParts] using isRest
            have parts := splitOn_toPath_nil isWhole (by simp)
            rw [toPath_dot]
            refine ⟨?_, by rw [Path.names, parts]; simp [isSilent]⟩
            rw [← Bool.not_eq_true, isAbsolute_iff_head, parts]
            simp
      · rename_i notDot
        rw [if_neg notDot] at isFront
        by_cases isEmpty : kept = []
        · rw [isEmpty]
          exact ⟨rfl, rfl⟩
        · have parts := splitOn_toPath_nil isFront isEmpty
          refine ⟨?_, by rw [Path.names, parts]⟩
          rw [← Bool.not_eq_true, isAbsolute_iff_head] at isAbsolute ⊢
          rw [parts]
          rintro ⟨-, emptyHead⟩
          obtain ⟨others, rfl⟩ := List.head?_eq_some_iff.mp emptyHead
          obtain ⟨behind, pieces⟩ := isFront
          exact isAbsolute ⟨nonempty, by rw [show path.splitOn '/' = _ from pieces.symm]; rfl⟩

/-- A directory around what a path leads to has the first of the path's names, and not all of them. -/
theorem names_of_mem_ancestors (isAround : around ∈ path.ancestors) (proper : around ≠ []) :
    around.isAbsolute = path.isAbsolute ∧
      ∃ behind, behind ≠ [] ∧ path.names = around.names ++ behind := by
  obtain ⟨behind, kept, pieces, speaks, rfl⟩ := (mem_outer isAround).resolve_left proper
  have inOrder : (Parts.ofPath path).pieces = kept.reverse ++ behind.reverse := by
    rw [← List.reverse_append, ← pieces, List.reverse_reverse]
  have spoken : behind.reverse.filter (!isSilent ·) ≠ [] := by simpa using speaks
  have pathNames : path.names =
      kept.reverse.filter (!isSilent ·) ++ behind.reverse.filter (!isSilent ·) := by
    rw [← filter_pieces_ofPath path, inOrder, List.filter_append]
  have someNames : path.names ≠ [] := by
    rw [pathNames]
    exact List.append_ne_nil_of_right_ne_nil _ spoken
  have front := toPath_front ⟨behind.reverse, inOrder.symm⟩ someNames
  exact ⟨front.1, _, spoken, by rw [front.2, pathNames]⟩

theorem ne_nil_of_mem_outer {pieces : List Text} (isAround : around ∈ Parts.outer ['/'] pieces) :
    around ≠ [] := by
  induction pieces with
  | nil => simp [Parts.outer] at isAround
  | cons piece others ih =>
      unfold Parts.outer at isAround
      split at isAround
      · exact ih isAround
      · rcases List.mem_cons.mp isAround with rfl | isLater
        · simp [toPath]
        · exact ih isLater

/-- Only a path that begins in the home has it around what it leads to. -/
theorem isAbsolute_of_nil_mem_ancestors (isAround : [] ∈ path.ancestors) : path.isAbsolute = false := by
  by_contra isAbsolute
  rw [ancestors, ofPath_eq path, if_pos (by simpa using isAbsolute)] at isAround
  exact ne_nil_of_mem_outer isAround rfl

theorem filter_dropWhile (pieces : List Text) :
    (pieces.dropWhile isSilent).filter (!isSilent ·) = pieces.filter (!isSilent ·) := by
  induction pieces with
  | nil => rfl
  | cons piece rest ih => cases silent : isSilent piece <;> simp [silent, ih]

end Path

end NameMigration
