import NameMigration.Proofs.LetterRuns
import NameMigration.Proofs.UnitCandidates

/-!
A mapping as what its file says about each name: the last entry for the name, among the flat renames
if its new name has one part and among the nested ones if it has two. One line more changes the answer
for its own name only, so what a whole file says follows line by line. Lines about different names may
stand in any order.
-/

namespace NameMigration

namespace Text

theorem segments_length_eq_one_iff {text : Text} : text.segments.length = 1 ↔ '.' ∉ text := by
  constructor
  · intro single
    obtain ⟨part, alone⟩ := List.length_eq_one_iff.mp single
    have undotted : '.' ∉ part := dot_notMem_of_mem_segments (by rw [alone]; simp)
    have joined := joinWith_segments text
    rw [alone, joinWith, List.intercalate_singleton] at joined
    rwa [← joined]
  · intro undotted
    rw [segments, List.splitOn_eq_singleton undotted]
    rfl

theorem eq_of_segments_eq_pair {text outer inner : Text} (parts : text.segments = [outer, inner]) :
    text = outer ++ '.' :: inner := by
  have joined := joinWith_segments text
  rw [parts] at joined
  simpa [joinWith_cons] using joined.symm

end Text

/-! ### Lines -/

def MappingLine.isEntryLine (line : Text) : Bool :=
  !isMember line && line.trim.head?.any (· ≠ '#')

def MappingLine.acceptedEntry? (line : Text) : Option Rename :=
  if isEntryLine line then Rename.ofEntry? line.trim else none

def MappingLine.isRejected (line : Text) : Bool :=
  isEntryLine line && (Rename.ofEntry? line.trim).isNone

theorem MappingLine.ofText_eq (line : Text) : ofText line =
    if isEntryLine line then
      match Rename.ofEntry? line.trim with
      | some rename => .entry rename
      | none => .malformed
    else .silent := by
  unfold ofText isEntryLine
  cases isMember line with
  | true => simp
  | false =>
      cases content : line.trim with
      | nil => simp
      | cons first rest =>
          by_cases isComment : first = '#'
          · simp [isComment]
          · cases entry : Rename.ofEntry? (first :: rest) <;> simp [isComment, entry]

def acceptedEntries (lines : List Text) : List Rename :=
  lines.filterMap MappingLine.acceptedEntry?

theorem acceptedEntries_concat (lines : List Text) (line : Text) :
    acceptedEntries (lines ++ [line]) =
      acceptedEntries lines ++ (MappingLine.acceptedEntry? line).toList := by
  cases accepted : MappingLine.acceptedEntry? line <;> simp [acceptedEntries, accepted]

def latest? (entries : List Rename) (name : Text) : Option Rename :=
  (entries.filter (·.key = name)).getLast?

theorem latest?_concat (entries : List Rename) (rename : Rename) (name : Text) :
    latest? (entries ++ [rename]) name =
      if rename.key = name then some rename else latest? entries name := by
  by_cases same : rename.key = name
  · simp [latest?, same]
  · simp [latest?, same]

theorem mem_of_latest? {entries : List Rename} {name : Text} {rename : Rename}
    (isLast : latest? entries name = some rename) : rename ∈ entries :=
  List.mem_of_mem_filter (List.mem_of_getLast? isLast)

theorem latest?_append (front back : List Rename) (name : Text) :
    latest? (front ++ back) name = (latest? back name).or (latest? front name) := by
  simp [latest?, List.getLast?_append]

/-- With one entry for each name, the order of the entries does not matter. -/
theorem latest?_of_perm {entries others : List Rename} (perm : entries.Perm others)
    (distinct : (entries.map (·.key)).Nodup) (name : Text) :
    latest? entries name = latest? others name := by
  have atMostOne : (entries.filter (·.key = name)).length ≤ 1 := by
    have counted := List.nodup_iff_count.mp distinct name
    rw [List.count_eq_countP, List.countP_map, List.countP_eq_length_filter] at counted
    have sameTest : (· == name) ∘ Rename.key = fun rename => decide (rename.key = name) := by
      funext rename
      rw [Bool.eq_iff_iff]
      simp
    exact sameTest ▸ counted
  have filtered := perm.filter (·.key = name)
  have same : entries.filter (·.key = name) = others.filter (·.key = name) := by
    rcases Nat.le_one_iff_eq_zero_or_eq_one.mp atMostOne with none | one
    · rw [List.length_eq_zero_iff.mp none] at filtered ⊢
      exact filtered.symm.eq_nil.symm
    · obtain ⟨only, alone⟩ := List.length_eq_one_iff.mp one
      rw [alone] at filtered ⊢
      exact (List.perm_singleton.mp filtered.symm).symm
  rw [latest?, latest?, same]

theorem MappingLine.nil_notMem_segments_of_acceptedEntry? {line : Text} {rename : Rename}
    (accepted : acceptedEntry? line = some rename) :
    [] ∉ rename.target.name.segments ∧ rename.target.name.segments.length ≤ 2 := by
  unfold acceptedEntry? at accepted
  split at accepted
  · refine ⟨(Rename.nil_notMem_segments_of_ofEntry? accepted).2, ?_⟩
    unfold Rename.ofEntry? at accepted
    split at accepted
    · simp only [Option.bind_eq_bind, Option.bind_eq_some_iff] at accepted
      obtain ⟨legacy, _, target, _, whole⟩ := accepted
      split at whole
      · rename_i short
        rw [Option.some.injEq] at whole
        exact whole ▸ short
      · exact absurd whole (by simp)
    · exact absurd accepted (by simp)
  · exact absurd accepted (by simp)

/-! ### One line more -/

namespace Mapping

variable {mapping : Mapping} {lines : List Text} {name : Text} {rename : Rename}

theorem find?_addLine (mapping : Mapping) (line name : Text) :
    (mapping.addLine line).find? name =
      match MappingLine.acceptedEntry? line with
      | some rename => if rename.key = name then some rename else mapping.find? name
      | none => mapping.find? name := by
  unfold addLine MappingLine.acceptedEntry?
  rw [MappingLine.ofText_eq]
  by_cases isEntry : MappingLine.isEntryLine line = true
  · cases Rename.ofEntry? line.trim with
    | none => simp [isEntry, find?]
    | some rename =>
        simp only [isEntry, if_true]
        exact mapping.ordered.find?_put rename name
  · simp [isEntry]

theorem malformed_addLine (mapping : Mapping) (line : Text) :
    (mapping.addLine line).malformed =
      mapping.malformed + if MappingLine.isRejected line then 1 else 0 := by
  unfold addLine MappingLine.isRejected
  rw [MappingLine.ofText_eq]
  by_cases isEntry : MappingLine.isEntryLine line = true
  · cases Rename.ofEntry? line.trim <;> simp [isEntry]
  · simp [isEntry]

theorem ofLines_concat (lines : List Text) (line : Text) :
    ofLines (lines ++ [line]) = (ofLines lines).addLine line := by
  simp [ofLines]

/-! ### Whole files -/

theorem find?_ofLines (lines : List Text) (name : Text) :
    (ofLines lines).find? name = latest? (acceptedEntries lines) name := by
  induction lines using List.reverseRecOn with
  | nil => rfl
  | append_singleton lines line ih =>
      rw [ofLines_concat, find?_addLine, acceptedEntries_concat]
      cases MappingLine.acceptedEntry? line with
      | none => simpa using ih
      | some rename => simp only [Option.toList_some, latest?_concat, ih]

theorem malformed_ofLines (lines : List Text) :
    (ofLines lines).malformed = lines.countP MappingLine.isRejected := by
  induction lines using List.reverseRecOn with
  | nil => rfl
  | append_singleton lines line ih =>
      rw [ofLines_concat, malformed_addLine, ih, List.countP_append, List.countP_singleton]

theorem find?_eq_some_iff : mapping.find? name = some rename ↔
    rename ∈ mapping.renames ∧ rename.key = name := by
  constructor
  · intro found
    exact ⟨mem_of_find? found, by simpa using List.find?_some found⟩
  · rintro ⟨member, rfl⟩
    exact mapping.ordered.find?_of_mem member

theorem findFlat?_eq_some_iff : mapping.findFlat? name = some rename ↔
    rename ∈ mapping.flat ∧ rename.key = name := by
  simp only [findFlat?, flat, Option.filter_eq_some_iff, find?_eq_some_iff, List.mem_filter]
  exact and_right_comm

theorem findNested?_eq_some_iff : mapping.findNested? name = some rename ↔
    rename ∈ mapping.nested ∧ rename.key = name := by
  simp only [findNested?, nested, Option.filter_eq_some_iff, find?_eq_some_iff, List.mem_filter]
  exact and_right_comm

/-- A mapping is known by its answers. -/
theorem eq_of_find?_eq {first second : Mapping}
    (answers : ∀ name, first.find? name = second.find? name)
    (malformed : first.malformed = second.malformed) : first = second := by
  have sameMembers : ∀ rename, rename ∈ first.renames ↔ rename ∈ second.renames := by
    intro rename
    have here : first.find? rename.key = some rename ↔
        rename ∈ first.renames ∧ rename.key = rename.key := find?_eq_some_iff
    rw [answers, find?_eq_some_iff] at here
    simpa using here.symm
  have same : first.renames = second.renames := first.ordered.eq_of_mem_iff second.ordered sameMembers
  obtain ⟨renames, _, _⟩ := first
  obtain ⟨others, _, _⟩ := second
  subst same malformed
  rfl

/-! ### Where an entry is kept -/

theorem mem_acceptedEntries_of_mem (member : rename ∈ (ofLines lines).renames) :
    rename ∈ acceptedEntries lines := by
  have found := find?_eq_some_iff.mpr ⟨member, rfl⟩
  exact mem_of_latest? (find?_ofLines lines rename.key ▸ found)

end Mapping

theorem isNested_eq_false_iff {rename : Rename} :
    rename.isNested = false ↔ rename.target.name.segments.length = 1 := by
  rw [Text.segments_length_eq_one_iff]
  simp [Rename.isNested]

theorem isNested_eq_true_iff {lines : List Text} {rename : Rename}
    (accepted : rename ∈ acceptedEntries lines) :
    rename.isNested = true ↔ rename.target.name.segments.length = 2 := by
  obtain ⟨line, _, read⟩ := List.mem_filterMap.mp accepted
  have short := (MappingLine.nil_notMem_segments_of_acceptedEntry? read).2
  have nonempty := List.length_pos_iff.mpr (Text.segments_ne_nil rename.target.name)
  rw [← Bool.not_eq_false, isNested_eq_false_iff]
  omega

theorem nesting?_of_isNested {lines : List Text} {rename : Rename}
    (accepted : rename ∈ acceptedEntries lines) (isNested : rename.isNested = true) :
    ∃ outer inner, rename.target.nesting? = some (outer, inner) ∧
      rename.target.name = outer ++ '.' :: inner := by
  obtain ⟨outer, inner, parts⟩ := List.length_eq_two.mp ((isNested_eq_true_iff accepted).mp isNested)
  obtain ⟨line, _, read⟩ := List.mem_filterMap.mp accepted
  have proper := (MappingLine.nil_notMem_segments_of_acceptedEntry? read).1
  rw [parts] at proper
  refine ⟨outer, inner, ?_, Text.eq_of_segments_eq_pair parts⟩
  simp only [List.mem_cons, List.not_mem_nil, or_false, not_or] at proper
  simp [ClassName.nesting?, parts, Ne.symm proper.1, Ne.symm proper.2]

theorem nesting?_eq_none {rename : Rename} (simple : rename.isNested = false) :
    rename.target.nesting? = none := by
  obtain ⟨part, alone⟩ := List.length_eq_one_iff.mp (isNested_eq_false_iff.mp simple)
  rw [ClassName.nesting?, alone]

/-- What a mapping answers that says the same as the lines: for each name what the last entry for it
says, in one of two places, and how many lines should be entries and are none. -/
structure Mapping.IsTableOf (lines : List Text) (mapping : Mapping) : Prop where
  findFlat? : ∀ name, mapping.findFlat? name =
    (latest? (acceptedEntries lines) name).filter (·.target.name.segments.length = 1)
  findNested? : ∀ name, mapping.findNested? name =
    (latest? (acceptedEntries lines) name).filter (·.target.name.segments.length = 2)
  apart : ∀ name, mapping.findFlat? name = none ∨ mapping.findNested? name = none
  mem_flat_iff : ∀ rename, rename ∈ mapping.flat ↔ mapping.findFlat? rename.key = some rename
  mem_nested_iff : ∀ rename, rename ∈ mapping.nested ↔ mapping.findNested? rename.key = some rename
  ownName : ∀ name rename,
    mapping.findFlat? name = some rename ∨ mapping.findNested? name = some rename → rename.key = name
  simple : ∀ rename ∈ mapping.flat, rename.isNested = false ∧ rename.target.nesting? = none
  inner : ∀ rename ∈ mapping.nested, rename.isNested = true ∧
    ∃ outer inner, rename.target.nesting? = some (outer, inner) ∧
      rename.target.name = outer ++ '.' :: inner
  malformed : mapping.malformed = lines.countP MappingLine.isRejected

namespace Mapping

theorem ofLines_isTable (lines : List Text) : (ofLines lines).IsTableOf lines where
  findFlat? name := by
    rw [Mapping.findFlat?, find?_ofLines]
    cases latest? (acceptedEntries lines) name with
    | none => rfl
    | some rename =>
        have sameTest : (!rename.isNested) = decide (rename.target.name.segments.length = 1) := by
          rw [Bool.eq_iff_iff]
          simpa using isNested_eq_false_iff
        rw [Option.filter_some, Option.filter_some, sameTest]
  findNested? name := by
    rw [Mapping.findNested?, find?_ofLines]
    cases isLast : latest? (acceptedEntries lines) name with
    | none => rfl
    | some rename =>
        have sameTest : rename.isNested = decide (rename.target.name.segments.length = 2) := by
          rw [Bool.eq_iff_iff]
          simpa using isNested_eq_true_iff (mem_of_latest? isLast)
        rw [Option.filter_some, Option.filter_some, sameTest]
  apart name := by
    cases found : (ofLines lines).find? name with
    | none => simp [Mapping.findFlat?, found]
    | some rename => cases isNested : rename.isNested <;>
        simp [Mapping.findFlat?, Mapping.findNested?, found, isNested]
  mem_flat_iff rename := by simp [findFlat?_eq_some_iff]
  mem_nested_iff rename := by simp [findNested?_eq_some_iff]
  ownName name rename found := by
    rcases found with flat | nested
    · exact (findFlat?_eq_some_iff.mp flat).2
    · exact (findNested?_eq_some_iff.mp nested).2
  simple rename member := by
    have isSimple : rename.isNested = false := by simpa [flat] using (List.mem_filter.mp member).2
    exact ⟨isSimple, nesting?_eq_none isSimple⟩
  inner rename member := by
    obtain ⟨inRenames, isNested⟩ := List.mem_filter.mp member
    exact ⟨isNested, nesting?_of_isNested (mem_acceptedEntries_of_mem inRenames) isNested⟩
  malformed := malformed_ofLines lines

theorem ofLines_of_perm {lines shuffled : List Text} (perm : lines.Perm shuffled)
    (distinct : ((acceptedEntries lines).map (·.key)).Nodup) (front back : List Text) :
    ofLines (front ++ lines ++ back) = ofLines (front ++ shuffled ++ back) := by
  apply eq_of_find?_eq
  · intro name
    have samePart := latest?_of_perm (perm.filterMap MappingLine.acceptedEntry?) distinct name
    simp only [find?_ofLines, acceptedEntries, List.filterMap_append, latest?_append, samePart]
  · simp only [malformed_ofLines, List.countP_append, perm.countP_eq]

/-- A mapping answers what its lines say, and lines with entries for different names may stand in any
order. -/
theorem ofLines_isTableOf (lines : List Text) : (ofLines lines).IsTableOf lines ∧
    ∀ shuffled front back : List Text, lines.Perm shuffled →
      ((acceptedEntries lines).map (·.key)).Nodup →
        ofLines (front ++ lines ++ back) = ofLines (front ++ shuffled ++ back) :=
  ⟨ofLines_isTable lines, fun _ front back perm distinct => ofLines_of_perm perm distinct front back⟩

end Mapping

def boxAndLid : List Text :=
  ["p/q/Box p/q/Bin".toList, "# lids".toList, "p/q/Box$Lid p/q/Bin$Cover".toList]

theorem boxAndLid_shuffled :
    boxAndLid.Perm boxAndLid.reverse ∧ ((acceptedEntries boxAndLid).map (·.key)).Nodup ∧
      Mapping.ofLines (["p/q/Box p/q/Crate".toList] ++ boxAndLid ++ ["Lid".toList]) =
        Mapping.ofLines (["p/q/Box p/q/Crate".toList] ++ boxAndLid.reverse ++ ["Lid".toList]) := by
  have perm : boxAndLid.Perm boxAndLid.reverse := (List.reverse_perm boxAndLid).symm
  have distinct : ((acceptedEntries boxAndLid).map (·.key)).Nodup := by decide +kernel
  exact ⟨perm, distinct, (Mapping.ofLines_isTableOf boxAndLid).2 _ _ _ perm distinct⟩

end NameMigration
