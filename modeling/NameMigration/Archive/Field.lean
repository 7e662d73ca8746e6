import NameMigration.Text.Utf8

/-!
Numbers and marks at places of an archive.
-/

namespace NameMigration.Archive

def numberAt (bytes : Bytes) (offset count : Nat) : Nat :=
  ((bytes.drop offset).take count).foldr (fun byte higher => byte.toNat + 256 * higher) 0

def mark (first second : UInt8) : Bytes :=
  [0x50, 0x4b, first, second]

def findMark? (sought : Bytes) (place : Nat) (bytes : Bytes) : Option (Nat × Bytes) :=
  match bytes with
  | [] => none
  | byte :: rest =>
      if sought.isPrefixOf (byte :: rest) then some (place, byte :: rest)
      else findMark? sought (place + 1) rest

end NameMigration.Archive
