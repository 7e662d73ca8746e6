import NameMigration.Keyed
import NameMigration.Text.CharClass

/-!
Text as a list of characters: measuring, trimming, splitting and searching. Names, qualifiers and
source lines are all texts.
-/

namespace NameMigration

abbrev Text := List Char

namespace Text

def utf8Length : Text → Nat
  | [] => 0
  | c :: rest => c.utf8Size + utf8Length rest

theorem utf8Length_append (first second : Text) :
    utf8Length (first ++ second) = utf8Length first + utf8Length second := by
  induction first with
  | nil => simp [utf8Length]
  | cons c rest ih =>
      simp only [List.cons_append, utf8Length, ih]
      omega

theorem eq_nil_of_utf8Length_eq_zero {text : Text} (empty : utf8Length text = 0) : text = [] := by
  cases text with
  | nil => rfl
  | cons c rest =>
      have positive := c.utf8Size_pos
      simp only [utf8Length] at empty
      omega

/-- The text cut at a byte offset. An offset inside a character cuts behind that character. -/
def splitAtByte (offset : Nat) : Text → Text × Text
  | [] => ([], [])
  | c :: rest =>
      if offset = 0 then ([], c :: rest)
      else
        let (before, after) := splitAtByte (offset - c.utf8Size) rest
        (c :: before, after)

theorem splitAtByte_append (offset : Nat) (text : Text) :
    (splitAtByte offset text).1 ++ (splitAtByte offset text).2 = text := by
  induction text generalizing offset with
  | nil => rfl
  | cons c rest ih =>
      simp only [splitAtByte]
      split
      · rfl
      · simp [ih]

def after? : (front : Text) → Text → Option Text
  | [], text => some text
  | _ :: _, [] => none
  | f :: front, c :: rest => if f = c then after? front rest else none

theorem after?_eq_some_iff {front text rest : Text} :
    after? front text = some rest ↔ text = front ++ rest := by
  induction front generalizing text with
  | nil => simp [after?]
  | cons f front ih =>
      cases text with
      | nil => simp [after?]
      | cons c tail =>
          by_cases same : f = c
          · subst same
            simp [after?, ih]
          · simp [after?, same, Ne.symm same]

@[simp] theorem after?_append (front rest : Text) : after? front (front ++ rest) = some rest :=
  after?_eq_some_iff.mpr rfl

theorem ne_append_of_after?_eq_none {front text : Text} (notFront : after? front text = none)
    (rest : Text) : text ≠ front ++ rest := by
  rintro rfl
  rw [after?_append] at notFront
  exact absurd notFront (by simp)

theorem length_lt_of_after? {front text rest : Text} (nonempty : front ≠ [])
    (found : after? front text = some rest) : rest.length < text.length := by
  have positive := List.length_pos_iff.mpr nonempty
  rw [after?_eq_some_iff.mp found, List.length_append]
  omega

def occurs (needle : Text) : Text → Bool
  | [] => needle.isEmpty
  | c :: rest => needle.isPrefixOf (c :: rest) || occurs needle rest

theorem occurs_iff_isInfix {needle text : Text} : occurs needle text = true ↔ needle <:+: text := by
  induction text with
  | nil => simp [occurs]
  | cons c rest ih => simp [occurs, ih, List.infix_cons_iff]

theorem forall_occurrence_iff {needle text : Text} {good : Text → Text → Prop} :
    (∀ front rest, text = front ++ (needle ++ rest) → good front rest) ↔
      ∀ cut ∈ List.range (text.length + 1), needle <+: text.drop cut →
        good (text.take cut) (text.drop (cut + needle.length)) := by
  constructor
  · rintro allGood cut _ ⟨rest, here⟩
    have behind : text.drop (cut + needle.length) = rest := by
      rw [← List.drop_drop, ← here, List.drop_left]
    rw [behind]
    exact allGood (text.take cut) rest (by rw [here, List.take_append_drop])
  · rintro allGood front rest rfl
    have inRange : front.length ∈ List.range ((front ++ (needle ++ rest)).length + 1) := by
      rw [List.mem_range, List.length_append]
      omega
    have behind : (front ++ (needle ++ rest)).drop (front.length + needle.length) = rest := by
      rw [← List.drop_drop, List.drop_left, List.drop_left]
    simpa only [List.take_left, behind] using allGood front.length inRange (by simp)

instance (needle text : Text) (good : Text → Text → Prop)
    [∀ front rest, Decidable (good front rest)] :
    Decidable (∀ front rest, text = front ++ (needle ++ rest) → good front rest) :=
  decidable_of_iff _ forall_occurrence_iff.symm

/-- What follows each occurrence of `needle`, from left to right. Occurrences do not overlap: the
search goes on behind the one found, or at the next character when `needle` is empty. -/
def followers (needle text : Text) : List Text :=
  match text with
  | [] => if needle = [] then [[]] else []
  | c :: rest =>
      match found : after? needle (c :: rest) with
      | none => followers needle rest
      | some behind =>
          if nonempty : needle = [] then behind :: followers needle rest
          else
            have _shorter := length_lt_of_after? nonempty found
            behind :: followers needle behind
  termination_by text.length
  decreasing_by all_goals simp only [List.length_cons] at *; omega

/-- The text with every occurrence of `search` replaced, from left to right and without overlaps.
An empty `search` is found nowhere. -/
def replaceAll (search replacement text : Text) : Text :=
  match text with
  | [] => []
  | c :: rest =>
      match found : after? search (c :: rest) with
      | none => c :: replaceAll search replacement rest
      | some behind =>
          if nonempty : search = [] then c :: replaceAll search replacement rest
          else
            have _shorter := length_lt_of_after? nonempty found
            replacement ++ replaceAll search replacement behind
  termination_by text.length
  decreasing_by all_goals simp only [List.length_cons] at *; omega

def trimStart (text : Text) : Text :=
  text.dropWhile isBlank

def trimEnd (text : Text) : Text :=
  (text.reverse.dropWhile isBlank).reverse

def trim (text : Text) : Text :=
  text.trimStart.trimEnd

def words (text : Text) : List Text :=
  (text.splitOnP isBlank).filter (· ≠ [])

theorem mem_of_mem_splitOn {text part : Text} {separator c : Char}
    (isPart : part ∈ text.splitOn separator) (member : c ∈ part) : c ∈ text ∧ c ≠ separator := by
  rw [List.splitOn_eq_splitOnP] at isPart
  induction text generalizing part with
  | nil => simp_all
  | cons d rest ih =>
      rw [List.splitOnP_cons_eq_if_modifyHead] at isPart
      split at isPart
      · rcases List.mem_cons.mp isPart with rfl | later
        · simp at member
        · exact ⟨List.mem_cons_of_mem d (ih later member).1, (ih later member).2⟩
      · rename_i notHere
        obtain ⟨head, tail, split⟩ :=
          List.exists_cons_of_ne_nil (List.splitOnP_ne_nil (· == separator) rest)
        rw [split] at isPart ih
        rcases List.mem_cons.mp isPart with rfl | later
        · rcases List.mem_cons.mp member with rfl | inHead
          · exact ⟨List.mem_cons_self, fun same => notHere (by simp [same])⟩
          · have inRest := ih List.mem_cons_self inHead
            exact ⟨List.mem_cons_of_mem d inRest.1, inRest.2⟩
        · have inRest := ih (List.mem_cons_of_mem head later) member
          exact ⟨List.mem_cons_of_mem d inRest.1, inRest.2⟩

def segments (text : Text) : List Text :=
  text.splitOn '.'

theorem mem_of_mem_segments {text part : Text} {c : Char} (isPart : part ∈ text.segments)
    (member : c ∈ part) : c ∈ text ∧ c ≠ '.' :=
  mem_of_mem_splitOn isPart member

def joinWith (separator : Text) (parts : List Text) : Text :=
  separator.intercalate parts

theorem joinWith_cons (separator first : Text) (rest : List Text) :
    joinWith separator (first :: rest) = first ++ rest.flatMap (separator ++ ·) := by
  induction rest generalizing first with
  | nil => simp [joinWith]
  | cons second others ih =>
      rw [joinWith, List.intercalate_cons_cons, ← joinWith, ih, List.flatMap_cons]
      simp

def ordered (texts : List Text) : List Text :=
  texts.foldl (fun found text => Keyed.insert id id text found) []

end Text

end NameMigration
