import Mathlib.Data.List.SplitBy
import NameMigration.Text.Basic

/-!
The pieces of a text: its maximal runs of letters and the single characters between them. A text
whose cut does not lie inside a run has the pieces of both parts, so what happens between two
boundaries shows in the pieces between them only.
-/

namespace NameMigration.Text

theorem takeWhile_append_stop {p : Char → Bool} {front rest : Text} (all : ∀ c ∈ front, p c = true)
    (stops : ∀ c ∈ rest.head?, p c = false) : (front ++ rest).takeWhile p = front := by
  rw [List.takeWhile_append_of_pos all]
  cases rest with
  | nil => simp
  | cons c others => simp [stops c (by simp)]

theorem dropWhile_append_stop {p : Char → Bool} {front rest : Text} (all : ∀ c ∈ front, p c = true)
    (stops : ∀ c ∈ rest.head?, p c = false) : (front ++ rest).dropWhile p = rest := by
  rw [List.dropWhile_append_of_pos all]
  cases rest with
  | nil => rfl
  | cons c others => simp [stops c (by simp)]

/-- The maximal runs of letters and, one by one, the characters that are no letters. -/
def pieces (text : Text) : List Text :=
  text.splitBy fun first second => isAlphabetic first && isAlphabetic second

def letterRuns (text : Text) : List Text :=
  text.pieces.filter (·.all isAlphabetic)

def IsLetterRun (text : Text) : Prop :=
  text ≠ [] ∧ ∀ c ∈ text, isAlphabetic c = true

def IsLettered (text : Text) : Prop :=
  ∀ part ∈ text.segments, IsLetterRun part

instance (text : Text) : Decidable (IsLetterRun text) :=
  decidable_of_iff (text ≠ [] ∧ text.all isAlphabetic = true) (by simp [IsLetterRun])

instance (text : Text) : Decidable (IsLettered text) :=
  inferInstanceAs (Decidable (∀ part ∈ text.segments, IsLetterRun part))

theorem flatten_pieces (text : Text) : text.pieces.flatten = text :=
  List.flatten_splitBy _ text

@[simp] theorem pieces_nil : pieces [] = [] := rfl

theorem nil_notMem_pieces (text : Text) : [] ∉ text.pieces :=
  List.nil_notMem_splitBy _ text

theorem isAlphabetic_dot : isAlphabetic '.' = false := by decide

theorem pieces_append {left right : Text}
    (apart : left.getLast?.any isAlphabetic = false ∨ right.head?.any isAlphabetic = false) :
    pieces (left ++ right) = left.pieces ++ right.pieces := by
  apply List.splitBy_append
  intro last isLast first isFirst
  rw [Option.mem_def] at isLast isFirst
  rw [isLast, isFirst] at apart
  simp only [Option.any_some] at apart
  rcases apart with leftApart | rightApart
  · simp [leftApart]
  · simp [rightApart]

theorem apart_of_pieces_eq {text : Text} {before after : List Text}
    (split : text.pieces = before ++ after) :
    before.flatten.getLast?.any isAlphabetic = false ∨
      after.flatten.head?.any isAlphabetic = false := by
  have chain := List.isChain_getLast_head_splitBy
    (fun first second => isAlphabetic first && isAlphabetic second) text
  have nonempty := nil_notMem_pieces text
  unfold pieces at split nonempty
  rw [split] at chain nonempty
  rcases List.eq_nil_or_concat before with rfl | ⟨others, last, rfl⟩
  · exact Or.inl rfl
  · cases after with
    | nil => exact Or.inr rfl
    | cons first rest =>
        rw [List.isChain_append] at chain
        obtain ⟨lastNonempty, firstNonempty, boundary⟩ := chain.2.2 last (by simp) first (by simp)
        rw [Bool.and_eq_false_iff] at boundary
        simpa [List.getLast?_append, List.head?_append, List.getLast?_eq_some_getLast lastNonempty,
          List.head?_eq_some_head firstNonempty] using boundary

theorem pieces_cons {c : Char} (noLetter : isAlphabetic c = false) (rest : Text) :
    pieces (c :: rest) = [c] :: rest.pieces := by
  have apart : ([c] : Text).getLast?.any isAlphabetic = false := by simpa using noLetter
  rw [← List.singleton_append, pieces_append (Or.inl apart)]
  rfl

theorem IsLetterRun.pieces {word : Text} (isRun : IsLetterRun word) : word.pieces = [word] := by
  apply List.splitBy_of_isChain isRun.1
  rw [List.isChain_iff_getElem]
  intro index below
  simp only [Bool.and_eq_true]
  exact ⟨isRun.2 _ (by simp), isRun.2 _ (by simp)⟩

theorem letterRuns_append {left right : Text}
    (apart : left.getLast?.any isAlphabetic = false ∨ right.head?.any isAlphabetic = false) :
    letterRuns (left ++ right) = left.letterRuns ++ right.letterRuns := by
  simp [letterRuns, pieces_append apart]

theorem IsLetterRun.letterRuns {word : Text} (isRun : IsLetterRun word) :
    word.letterRuns = [word] := by
  rw [Text.letterRuns, isRun.pieces]
  simpa using isRun.2

theorem letterRuns_dot (rest : Text) : letterRuns ('.' :: rest) = rest.letterRuns := by
  simp [letterRuns, pieces_cons isAlphabetic_dot, isAlphabetic_dot]

theorem IsLetterRun.dot_notMem {word : Text} (isRun : IsLetterRun word) : '.' ∉ word := by
  intro member
  have isLetter := isRun.2 '.' member
  rw [isAlphabetic_dot] at isLetter
  exact absurd isLetter (by decide)

theorem IsLetterRun.segments {word : Text} (isRun : IsLetterRun word) :
    word.segments = [word] :=
  List.splitOn_eq_singleton isRun.dot_notMem

theorem segments_append_dot (left right : Text) :
    segments (left ++ '.' :: right) = left.segments ++ right.segments :=
  List.splitOn_append_cons_self left right

theorem segments_ne_nil (text : Text) : text.segments ≠ [] :=
  List.splitOn_ne_nil '.' text

theorem joinWith_segments (text : Text) : joinWith ['.'] text.segments = text :=
  List.intercalate_splitOn '.'

theorem dot_notMem_of_mem_segments {text part : Text} (isPart : part ∈ text.segments) :
    '.' ∉ part :=
  fun inPart => (mem_of_mem_segments isPart inPart).2 rfl

theorem IsLetterRun.isLettered {word : Text} (isRun : IsLetterRun word) : IsLettered word := by
  intro part member
  rw [isRun.segments] at member
  rw [List.mem_singleton.mp member]
  exact isRun

theorem letterRuns_joinWith_dot (parts : List Text) (areRuns : ∀ part ∈ parts, IsLetterRun part) :
    letterRuns (joinWith ['.'] parts) = parts := by
  induction parts with
  | nil => rfl
  | cons first rest ih =>
      have firstRun := areRuns first (by simp)
      cases rest with
      | nil => simpa [joinWith] using firstRun.letterRuns
      | cons second others =>
          have restRuns := ih (fun part member => areRuns part (List.mem_cons_of_mem first member))
          have joined : joinWith ['.'] (first :: second :: others) =
              first ++ '.' :: joinWith ['.'] (second :: others) := by
            simp [joinWith, List.intercalate_cons_cons]
          rw [joined, letterRuns_append (Or.inr (by simp [isAlphabetic_dot])), firstRun.letterRuns,
            letterRuns_dot, restRuns]
          rfl

theorem IsLettered.letterRuns {text : Text} (lettered : IsLettered text) :
    text.letterRuns = text.segments := by
  have runs := letterRuns_joinWith_dot text.segments lettered
  rwa [joinWith_segments] at runs

def qualifierOf (packages : List Text) : Text :=
  packages.flatMap (· ++ ['.'])

@[simp] theorem qualifierOf_nil : qualifierOf [] = [] := rfl

theorem qualifierOf_cons (first : Text) (rest : List Text) :
    qualifierOf (first :: rest) = first ++ '.' :: qualifierOf rest := by
  simp [qualifierOf]

theorem eq_dot_or_mem_of_mem_qualifierOf {packages : List Text} {c : Char}
    (member : c ∈ qualifierOf packages) : c = '.' ∨ ∃ package ∈ packages, c ∈ package := by
  obtain ⟨package, inPackages, here⟩ := List.mem_flatMap.mp member
  rcases List.mem_append.mp here with inPackage | isDot
  · exact Or.inr ⟨package, inPackages, inPackage⟩
  · exact Or.inl (List.mem_singleton.mp isDot)

theorem segments_qualifierOf (packages : List Text) (name : Text) :
    segments (qualifierOf packages ++ name) = packages.flatMap segments ++ name.segments := by
  induction packages with
  | nil => rfl
  | cons first rest ih =>
      rw [qualifierOf_cons, List.append_assoc, List.cons_append, segments_append_dot, ih,
        List.flatMap_cons, List.append_assoc]

theorem segments_qualifierOf_append (packages : List Text)
    (areRuns : ∀ package ∈ packages, IsLetterRun package) (name : Text) :
    segments (qualifierOf packages ++ name) = packages ++ name.segments := by
  have undivided : packages.flatMap segments = packages.flatMap ([·]) :=
    List.flatMap_congr fun package member => (areRuns package member).segments
  rw [segments_qualifierOf, undivided, List.flatMap_singleton']

def qualifierPieces (packages : List Text) : List Text :=
  packages.flatMap fun package => [package, ['.']]

@[simp] theorem qualifierPieces_nil : qualifierPieces [] = [] := rfl

theorem qualifierPieces_cons (first : Text) (others : List Text) :
    qualifierPieces (first :: others) = first :: ['.'] :: qualifierPieces others := rfl

theorem flatten_qualifierPieces (packages : List Text) :
    (qualifierPieces packages).flatten = qualifierOf packages := by
  induction packages with
  | nil => rfl
  | cons first rest ih =>
      rw [qualifierOf_cons, ← ih]
      simp [qualifierPieces]

theorem mem_of_mem_qualifierPieces {packages : List Text} {piece : Text} (isRun : IsLetterRun piece)
    (member : piece ∈ qualifierPieces packages) : piece ∈ packages := by
  obtain ⟨package, inPackages, here⟩ := List.mem_flatMap.mp member
  rcases List.mem_cons.mp here with same | isDot
  · exact same ▸ inPackages
  · rw [List.mem_singleton.mp isDot] at isRun
    exact absurd (List.mem_singleton.mpr rfl) isRun.dot_notMem

theorem pieces_qualifierOf_append (packages : List Text)
    (areRuns : ∀ package ∈ packages, IsLetterRun package) (name : Text) :
    pieces (qualifierOf packages ++ name) = qualifierPieces packages ++ name.pieces := by
  induction packages with
  | nil => rfl
  | cons first rest ih =>
      have firstRun := areRuns first (by simp)
      have restPieces := ih (fun package member => areRuns package (List.mem_cons_of_mem first member))
      rw [qualifierOf_cons, List.append_assoc, List.cons_append,
        pieces_append (Or.inr (by simp [isAlphabetic_dot])), firstRun.pieces,
        pieces_cons isAlphabetic_dot, restPieces]
      rfl

end NameMigration.Text
