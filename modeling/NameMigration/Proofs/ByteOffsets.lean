import Mathlib
import NameMigration.Text.Utf8

/-!
Byte offsets in a text. A text is cut only where its UTF-8 bytes divide into characters; a cut anywhere
else has no answer. Since no character begins with a byte from inside another one, a text that is searched
for is found at such offsets only.
-/

namespace NameMigration

namespace Text

variable {needle front back text rest : Text} {c : Char} {offset : Nat}

/-! ### Bytes of characters -/

theorem utf8_cons (c : Char) (rest : Text) :
    utf8 (c :: rest) = String.utf8EncodeChar c ++ utf8 rest := rfl

theorem utf8_append (front back : Text) : utf8 (front ++ back) = utf8 front ++ utf8 back :=
  List.flatMap_append

theorem length_utf8 (text : Text) : text.utf8.length = text.utf8Length := by
  induction text with
  | nil => rfl
  | cons c rest ih => rw [utf8_cons, List.length_append, ih, String.length_utf8EncodeChar, utf8Length]

theorem drop_utf8_append (front back : Text) :
    (utf8 (front ++ back)).drop (utf8Length front) = utf8 back := by
  rw [utf8_append, ← length_utf8, List.drop_left]

theorem eq_of_utf8EncodeChar_append {d : Char} {more others : Bytes}
    (same : String.utf8EncodeChar c ++ more = String.utf8EncodeChar d ++ others) : c = d := by
  have decoded := congrArg (fun bytes : Bytes => bytes.toByteArray.utf8DecodeChar? 0) same
  simpa only [List.toByteArray_append, ByteArray.utf8DecodeChar?_utf8EncodeChar_append,
    Option.some.injEq] using decoded

theorem utf8_prefix_iff : utf8 needle <+: utf8 text ↔ needle <+: text := by
  constructor
  · intro starts
    induction needle generalizing text with
    | nil => exact List.nil_prefix
    | cons d others ih =>
        obtain ⟨more, same⟩ := starts
        cases text with
        | nil =>
            have lengths := congrArg List.length same
            have positive := d.utf8Size_pos
            rw [utf8_cons, List.append_assoc, List.length_append, String.length_utf8EncodeChar]
              at lengths
            simp only [utf8, List.flatMap_nil, List.length_nil] at lengths
            omega
        | cons c rest =>
            rw [utf8_cons, utf8_cons, List.append_assoc] at same
            obtain rfl := eq_of_utf8EncodeChar_append same
            exact List.cons_prefix_cons.mpr ⟨rfl, ih ⟨more, List.append_cancel_left same⟩⟩
  · rintro ⟨more, rfl⟩
    rw [utf8_append]
    exact List.prefix_append _ _

/-! ### Offsets -/

def offsetIn? (needle : Text) (bytes : Bytes) : Option Nat :=
  bytes.tails.findIdx? (needle.utf8.isPrefixOf ·)

theorem exists_utf8EncodeChar_eq_cons (c : Char) : ∃ first followers,
    String.utf8EncodeChar c = first :: followers ∧ first.IsUTF8FirstByte ∧
      ∀ byte ∈ followers, ¬byte.IsUTF8FirstByte := by
  have nonempty : String.utf8EncodeChar c ≠ [] := by
    rw [← List.length_pos_iff, String.length_utf8EncodeChar]
    exact c.utf8Size_pos
  obtain ⟨first, followers, spelled⟩ := List.exists_cons_of_ne_nil nonempty
  have isFirst : ∀ index (bound : index < (first :: followers).length),
      (first :: followers)[index].IsUTF8FirstByte ↔ index = 0 := by
    intro index bound
    have ofChar := @UInt8.isUTF8FirstByte_getElem_utf8EncodeChar c index
      (by rw [spelled]; exact bound)
    simpa only [spelled] using ofChar
  refine ⟨first, followers, spelled, (isFirst 0 (by simp)).mpr rfl, ?_⟩
  intro byte member leads
  obtain ⟨index, bound, here⟩ := List.getElem_of_mem member
  have atZero := (isFirst (index + 1) (by simpa using bound)).mp
    (by rw [List.getElem_cons_succ, here]; exact leads)
  exact absurd atZero (Nat.succ_ne_zero index)

theorem offsetIn?_nil (nonempty : needle ≠ []) : needle.offsetIn? [] = none := by
  obtain ⟨c, others, rfl⟩ := List.exists_cons_of_ne_nil nonempty
  obtain ⟨first, followers, spelled, _, _⟩ := exists_utf8EncodeChar_eq_cons c
  simp [offsetIn?, utf8_cons, spelled]

theorem offsetIn?_cons_byte (needle : Text) (byte : UInt8) (bytes : Bytes) :
    needle.offsetIn? (byte :: bytes) =
      if needle.utf8 <+: byte :: bytes then some 0 else (needle.offsetIn? bytes).map (· + 1) := by
  simp [offsetIn?, List.findIdx?_cons]

/-- No occurrence begins with a byte from inside a character. -/
theorem offsetIn?_append {followers : Bytes} (nonempty : needle ≠ [])
    (inside : ∀ byte ∈ followers, ¬byte.IsUTF8FirstByte) (bytes : Bytes) :
    needle.offsetIn? (followers ++ bytes) =
      (needle.offsetIn? bytes).map (· + followers.length) := by
  induction followers with
  | nil => simp
  | cons byte others ih =>
      have apart : ¬needle.utf8 <+: byte :: (others ++ bytes) := by
        obtain ⟨c, more, rfl⟩ := List.exists_cons_of_ne_nil nonempty
        obtain ⟨first, _, spelled, leads, _⟩ := exists_utf8EncodeChar_eq_cons c
        rw [utf8_cons, spelled, List.cons_append, List.cons_prefix_cons]
        rintro ⟨rfl, _⟩
        exact inside first List.mem_cons_self leads
      rw [List.cons_append, offsetIn?_cons_byte, if_neg apart,
        ih fun other member => inside other (List.mem_cons_of_mem byte member), Option.map_map]
      rfl

theorem offsetIn?_cons (nonempty : needle ≠ []) (c : Char) (rest : Text) :
    needle.offsetIn? (utf8 (c :: rest)) =
      if needle <+: c :: rest then some 0 else (needle.offsetIn? (utf8 rest)).map (· + c.utf8Size) := by
  obtain ⟨first, followers, spelled, _, inside⟩ := exists_utf8EncodeChar_eq_cons c
  have size : c.utf8Size = followers.length + 1 := by
    rw [← String.length_utf8EncodeChar, spelled, List.length_cons]
  have bytes : utf8 (c :: rest) = first :: (followers ++ utf8 rest) := by
    rw [utf8_cons, spelled, List.cons_append]
  have front : needle.utf8 <+: first :: (followers ++ utf8 rest) ↔ needle <+: c :: rest := by
    rw [← bytes, utf8_prefix_iff]
  rw [bytes, offsetIn?_cons_byte, offsetIn?_append nonempty inside, Option.map_map]
  simp only [front, size]
  rfl

theorem offsetIn?_front (nonempty : needle ≠ []) (back : Text) :
    needle.offsetIn? (utf8 (needle ++ back)) = some 0 := by
  obtain ⟨c, others, spelled⟩ := List.exists_cons_of_ne_nil nonempty
  have starts : needle <+: c :: (others ++ back) := by
    rw [← List.cons_append, ← spelled]
    exact List.prefix_append _ _
  have found := offsetIn?_cons nonempty c (others ++ back)
  rwa [if_pos starts, ← List.cons_append, ← spelled] at found

theorem offsetIn?_of_beyond {cursor : Nat} (nonempty : needle ≠ [])
    (beyond : text.utf8Length ≤ cursor) : needle.offsetIn? (text.utf8.drop cursor) = none := by
  rw [List.drop_eq_nil_of_le (by rwa [length_utf8]), offsetIn?_nil nonempty]

theorem exists_of_offsetIn?_eq_some (nonempty : needle ≠ [])
    (found : needle.offsetIn? (utf8 text) = some offset) :
    ∃ front rest, text = front ++ (needle ++ rest) ∧ utf8Length front = offset := by
  induction text generalizing offset with
  | nil => exact absurd found (by simp [utf8, offsetIn?_nil nonempty])
  | cons c others ih =>
      rw [offsetIn?_cons nonempty] at found
      split at found
      · rename_i starts
        obtain ⟨rest, here⟩ := starts
        rw [Option.some.injEq] at found
        exact ⟨[], rest, here.symm, found⟩
      · obtain ⟨behind, foundBehind, rfl⟩ := Option.map_eq_some_iff.mp found
        obtain ⟨front, rest, rfl, rfl⟩ := ih foundBehind
        exact ⟨c :: front, rest, rfl, Nat.add_comm _ _⟩

theorem utf8_prefix_of_offsetIn? {bytes : Bytes} (found : needle.offsetIn? bytes = some offset) :
    needle.utf8 <+: bytes.drop offset := by
  obtain ⟨bound, here, _⟩ := List.findIdx?_eq_some_iff_getElem.mp found
  rw [List.getElem_tails] at here
  exact List.isPrefixOf_iff_prefix.mp here

def cutAt? (offset : Nat) (text : Text) : Option (Text × Text) :=
  let (front, back) := text.splitAtByte offset
  if front.utf8Length = offset then some (front, back) else none

theorem splitAtByte_utf8Length (front back : Text) :
    splitAtByte (utf8Length front) (front ++ back) = (front, back) := by
  induction front with
  | nil => cases back <;> rfl
  | cons c others ih =>
      have positive := c.utf8Size_pos
      have notZero : c.utf8Size + utf8Length others ≠ 0 := by omega
      rw [List.cons_append, utf8Length, splitAtByte, if_neg notZero, Nat.add_sub_cancel_left, ih]

theorem cutAt?_append (front back : Text) :
    cutAt? (utf8Length front) (front ++ back) = some (front, back) := by
  simp [cutAt?, splitAtByte_utf8Length]

theorem cutAt?_behind (front needle back : Text) :
    cutAt? (utf8Length front + utf8Length needle) (front ++ (needle ++ back)) =
      some (front ++ needle, back) := by
  rw [← utf8Length_append, ← List.append_assoc, cutAt?_append]

theorem cutAt?_eq_some_iff :
    cutAt? offset text = some (front, back) ↔ text = front ++ back ∧ utf8Length front = offset := by
  constructor
  · intro found
    have whole := splitAtByte_append offset text
    simp only [cutAt?] at found
    split at found
    · rename_i measured
      rw [Option.some.injEq, Prod.mk.injEq] at found
      obtain ⟨rfl, rfl⟩ := found
      exact ⟨whole.symm, measured⟩
    · exact absurd found (by simp)
  · rintro ⟨rfl, rfl⟩
    exact cutAt?_append front back

theorem prefix_of_offsetIn? {cursor : Nat} (found : needle.offsetIn? (text.utf8.drop cursor) = some offset)
    (cut : text.cutAt? (cursor + offset) = some (front, back)) : needle <+: back := by
  obtain ⟨rfl, measured⟩ := cutAt?_eq_some_iff.mp cut
  have starts := utf8_prefix_of_offsetIn? found
  rw [List.drop_drop, ← measured, drop_utf8_append] at starts
  exact utf8_prefix_iff.mp starts

end Text

end NameMigration
