import NameMigration.Archive.Field

/-!
The records at the end of a ZIP archive, which say where its directory is. The last record has
narrow numbers; an archive too large for them has a record with wide numbers before it, and between
the two a locator that tells where the wide record is. All places that the records name are counted
from where the archive begins, and other bytes may stand before it.
-/

namespace NameMigration.Archive

structure Placement where
  shift : Nat
  directoryStart : Nat
  entryCount : Nat
  deriving DecidableEq, Repr

structure EndRecord where
  position : Nat
  disk : Nat
  directoryDisk : Nat
  entryCount : Nat
  allEntries : Nat
  directorySize : Nat
  directoryOffset : Nat
  commentSize : Nat
  deriving DecidableEq, Repr

namespace EndRecord

def size : Nat := 22

/-- The last place with the mark of an end record and room for one, with the bytes from there on. A
comment of at most 65535 bytes can follow the record. -/
def find? (position : Nat) (bytes : Bytes) : Option (Nat × Bytes) :=
  match bytes with
  | [] => none
  | byte :: rest =>
      match find? (position + 1) rest with
      | some found => some found
      | none =>
          if (mark 5 6).isPrefixOf (byte :: rest) ∧ size ≤ rest.length + 1 ∧
              rest.length + 1 ≤ size + 65535 then
            some (position, byte :: rest)
          else none

def ofBytes? (bytes : Bytes) : Option EndRecord := do
  let (position, record) ← find? 0 bytes
  let commentSize := numberAt record 20 2
  if record.length < size + commentSize then none
  else return {
    position
    disk := numberAt record 4 2
    directoryDisk := numberAt record 6 2
    entryCount := numberAt record 8 2
    allEntries := numberAt record 10 2
    directorySize := numberAt record 12 4
    directoryOffset := numberAt record 16 4
    commentSize }

def isFull (record : EndRecord) : Bool :=
  record.disk = 0xffff || record.directoryDisk = 0xffff || record.entryCount = 0xffff ||
    record.allEntries = 0xffff || record.directorySize = 0xffffffff ||
    record.directoryOffset = 0xffffffff

/-- Where the directory is if there is no wide record. The directory ends where the record begins,
so what the numbers leave over stands before the archive. -/
def placement? (record : EndRecord) : Option Placement :=
  let directoryEnd := record.directorySize + record.directoryOffset
  if directoryEnd ≤ record.position then
    let shift := record.position - directoryEnd
    some ⟨shift, shift + record.directoryOffset, record.entryCount⟩
  else none

end EndRecord

structure WideLocator where
  directoryDisk : Nat
  recordOffset : Nat
  deriving DecidableEq, Repr

namespace WideLocator

def size : Nat := 20

def ofBytes? (bytes : Bytes) (record : EndRecord) : Option WideLocator :=
  let behind := size + EndRecord.size + record.commentSize
  let locator := bytes.drop (bytes.length - behind)
  if behind ≤ bytes.length ∧ (mark 6 7).isPrefixOf locator then
    some ⟨numberAt locator 4 4, numberAt locator 8 8⟩
  else none

def recordSize : Nat := 60

/-- Where the directory is according to the wide record, which is the first one at or behind the
place that the locator names. Seeking a place takes a signed number of 64 bits. -/
def placement? (locator : WideLocator) (bytes : Bytes) (record : EndRecord) :
    Option Placement := do
  let (position, wide) ← findMark? (mark 6 6) locator.recordOffset (bytes.drop locator.recordOffset)
  let shift := position - locator.recordOffset
  let directoryStart := numberAt wide 48 8 + shift
  if !record.isFull && record.disk ≠ locator.directoryDisk then none
  else if record.position < position + recordSize then none
  else if numberAt wide 16 4 ≠ numberAt wide 20 4 then none
  else if 1 <<< 63 ≤ directoryStart then none
  else return ⟨shift, directoryStart, numberAt wide 32 8⟩

end WideLocator

def Placement.ofBytes? (bytes : Bytes) : Option Placement := do
  let record ← EndRecord.ofBytes? bytes
  if !record.isFull && record.disk ≠ record.directoryDisk then none
  else
    match WideLocator.ofBytes? bytes record with
    | some locator => locator.placement? bytes record
    | none => record.placement?

end NameMigration.Archive
