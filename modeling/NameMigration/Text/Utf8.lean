import NameMigration.Text.Basic

/-!
Texts as UTF-8 bytes. Bytes that are no UTF-8 fall into ill-formed pieces, each as long as it could
still have been the front of a character: a strict reader refuses them, a lenient one puts the
replacement character in their place.
-/

namespace NameMigration

abbrev Bytes := List UInt8

namespace Text

def utf8 (text : Text) : Bytes :=
  text.flatMap String.utf8EncodeChar

end Text

namespace Utf8

structure Lead where
  followers : Nat
  low : UInt8
  high : UInt8
  bits : Nat
  deriving DecidableEq, Repr

/-- Bytes that no character starts with have no lead. The narrower ranges leave out code points with
a shorter form, surrogates, and what lies behind the last code point. -/
def Lead.ofByte? (byte : UInt8) : Option Lead :=
  if byte < 0x80 then some ⟨0, 0, 0, byte.toNat⟩
  else if byte < 0xc2 then none
  else if byte < 0xe0 then some ⟨1, 0x80, 0xbf, byte.toNat - 0xc0⟩
  else if byte = 0xe0 then some ⟨2, 0xa0, 0xbf, 0⟩
  else if byte = 0xed then some ⟨2, 0x80, 0x9f, 0xd⟩
  else if byte < 0xf0 then some ⟨2, 0x80, 0xbf, byte.toNat - 0xe0⟩
  else if byte = 0xf0 then some ⟨3, 0x90, 0xbf, 0⟩
  else if byte < 0xf4 then some ⟨3, 0x80, 0xbf, byte.toNat - 0xf0⟩
  else if byte = 0xf4 then some ⟨3, 0x80, 0x8f, 4⟩
  else none

/-- The code point once `count` more bytes have followed, the first of them in the given range, and
the bytes behind. Nothing is taken from the byte that does not fit. -/
def takeFollowers : (count : Nat) → (low high : UInt8) → (bits : Nat) → Bytes → Option Nat × Bytes
  | 0, _, _, bits, bytes => (some bits, bytes)
  | _ + 1, _, _, _, [] => (none, [])
  | count + 1, low, high, bits, byte :: rest =>
      if low ≤ byte ∧ byte ≤ high then
        takeFollowers count 0x80 0xbf (bits * 64 + byte.toNat % 64) rest
      else (none, byte :: rest)

theorem length_takeFollowers_le (count : Nat) (low high : UInt8) (bits : Nat) (bytes : Bytes) :
    (takeFollowers count low high bits bytes).2.length ≤ bytes.length := by
  induction count generalizing low high bits bytes with
  | zero => simp [takeFollowers]
  | succ count ih =>
      cases bytes with
      | nil => simp [takeFollowers]
      | cons byte rest =>
          simp only [takeFollowers]
          split
          · exact Nat.le_succ_of_le (ih _ _ _ _)
          · exact Nat.le_refl _

def front (byte : UInt8) (rest : Bytes) : Option Char × Bytes :=
  match Lead.ofByte? byte with
  | none => (none, rest)
  | some lead =>
      let (codePoint?, behind) := takeFollowers lead.followers lead.low lead.high lead.bits rest
      (codePoint?.map Char.ofNat, behind)

theorem length_front_le (byte : UInt8) (rest : Bytes) :
    (front byte rest).2.length ≤ rest.length := by
  unfold front
  split
  · exact Nat.le_refl _
  · exact length_takeFollowers_le _ _ _ _ _

def characters : Bytes → List (Option Char)
  | [] => []
  | byte :: rest =>
      have _shorter := length_front_le byte rest
      (front byte rest).1 :: characters (front byte rest).2
  termination_by bytes => bytes.length
  decreasing_by simp only [List.length_cons] at *; omega

def decode? (bytes : Bytes) : Option Text :=
  (characters bytes).mapM id

def decodeLossy (bytes : Bytes) : Text :=
  (characters bytes).map (·.getD '\ufffd')

end Utf8

end NameMigration
