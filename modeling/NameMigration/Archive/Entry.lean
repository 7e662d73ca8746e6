import NameMigration.Archive.Checksum
import NameMigration.Archive.CodePage
import NameMigration.Archive.Field
import NameMigration.Archive.Inflate

/-!
The entries of a ZIP archive. The directory has a header for each entry, which says where its content
is and how it is packed. Extra fields of the header can give wide numbers, and say how the content
is enciphered.
-/

namespace NameMigration.Archive

inductive Packing where
  | stored
  | deflated
  | enciphered
  | unknown
  deriving DecidableEq, Repr

def Packing.ofNumber : Nat → Packing
  | 0 => .stored
  | 8 => .deflated
  | 99 => .enciphered
  | _ => .unknown

structure Entry where
  name : Text
  packing : Packing
  isEncrypted : Bool
  hasCipher : Bool := false
  checksum : UInt32
  packedSize : Nat
  unpackedSize : Nat
  headerStart : Nat
  deriving DecidableEq, Repr

namespace Entry

def widened? (number : Nat) (bytes : Bytes) : Option (Nat × Bytes) :=
  if number ≠ 0xffffffff then some (number, bytes)
  else if bytes.length < 8 then none
  else some (numberAt bytes 0 8, bytes.drop 8)

/-- The entry with the wide numbers that the bytes start with, and the bytes behind these. When the
bytes end too early, the numbers that are there count and no bytes are left. -/
def widen (entry : Entry) (bytes : Bytes) : Entry × Bytes :=
  match widened? entry.unpackedSize bytes with
  | none => (entry, [])
  | some (unpackedSize, bytes) =>
      let entry := { entry with unpackedSize }
      match widened? entry.packedSize bytes with
      | none => (entry, [])
      | some (packedSize, bytes) =>
          let entry := { entry with packedSize }
          match widened? entry.headerStart bytes with
          | none => (entry, [])
          | some (headerStart, bytes) => ({ entry with headerStart }, bytes)

def encipher? (entry : Entry) (bytes : Bytes) : Option Entry :=
  if [1, 2].contains (numberAt bytes 0 2) && numberAt bytes 2 2 = 0x4541 &&
      [1, 2, 3].contains (numberAt bytes 4 1) then
    some { entry with packing := .ofNumber (numberAt bytes 5 2), hasCipher := true }
  else none

/-- The entry with what the extra fields of its header say. A field has a kind and a size, and its
bytes follow. Fields that are cut off say nothing. -/
def withExtra? (entry : Entry) (extra : Bytes) : Option Entry :=
  match extra with
  | _ :: _ :: _ :: _ :: field =>
      let size := numberAt extra 2 2
      match numberAt extra 0 2 with
      | 0x1 =>
          let (entry, rest) := entry.widen field
          entry.withExtra? (field.drop (max size (field.length - rest.length)))
      | 0x9901 =>
          if size ≠ 7 then none
          else if field.length < 7 then some entry
          else do
            let entry ← entry.encipher? field
            entry.withExtra? (field.drop 14)
      | _ => entry.withExtra? (field.drop size)
  | _ => some entry
  termination_by extra.length
  decreasing_by all_goals simp only [List.length_cons, List.length_drop] at *; omega

def headerSize : Nat := 46

def ofFront? (shift : Nat) (bytes : Bytes) : Option (Entry × Bytes) := do
  let nameSize := numberAt bytes 28 2
  let extraSize := numberAt bytes 30 2
  let size := headerSize + nameSize + extraSize + numberAt bytes 32 2
  if !(mark 1 2).isPrefixOf bytes || bytes.length < headerSize || bytes.length < size then none
  else
    let flags := numberAt bytes 8 2
    let name := (bytes.drop headerSize).take nameSize
    let entry : Entry := {
      name := if flags.testBit 11 then Utf8.decodeLossy name else CodePage.decode name
      packing := .ofNumber (numberAt bytes 10 2)
      isEncrypted := flags.testBit 0
      checksum := (numberAt bytes 16 4).toUInt32
      packedSize := numberAt bytes 20 4
      unpackedSize := numberAt bytes 24 4
      headerStart := numberAt bytes 42 4 }
    let entry ← entry.withExtra? ((bytes.drop (headerSize + nameSize)).take extraSize)
    let headerStart := entry.headerStart + shift
    if entry.packing = .enciphered && !entry.hasCipher then none
    else if 1 <<< 64 ≤ headerStart then none
    else return ({ entry with headerStart }, bytes.drop size)

def takeMany? (shift : Nat) : (count : Nat) → Bytes → Option (List Entry)
  | 0, _ => some []
  | count + 1, bytes => do
      let (entry, rest) ← ofFront? shift bytes
      return entry :: (← takeMany? shift count rest)

def contentStart? (entry : Entry) (archive : Bytes) : Option Nat :=
  let header := archive.drop entry.headerStart
  let isReadable := entry.packing = .stored || entry.packing = .deflated
  if entry.isEncrypted || entry.hasCipher || !isReadable then none
  else if (mark 3 4).isPrefixOf header ∧ 30 ≤ header.length then
    some (entry.headerStart + 30 + numberAt header 26 2 + numberAt header 28 2)
  else none

def unpack (entry : Entry) (bytes : Bytes) : Bytes × Bool :=
  let packed := bytes.take entry.packedSize
  match entry.packing with
  | .deflated =>
      let (content, stop?) := inflate packed
      (content, stop? = none ∧ Archive.checksum content = entry.checksum)
  | _ => (packed, Archive.checksum packed = entry.checksum)

def isDirectory (entry : Entry) : Bool :=
  entry.name.getLast? = some '/' || entry.name.getLast? = some '\\'

end Entry

end NameMigration.Archive
