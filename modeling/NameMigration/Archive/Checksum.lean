import NameMigration.Text.Utf8

/-!
The checksum of archive entries: the remainder of the content, taken as a polynomial over two
elements, by the polynomial of degree 32 that Ethernet uses. The lowest bit comes first.
-/

namespace NameMigration.Archive

def divideStep (remainder : UInt32) : UInt32 :=
  if remainder % 2 = 1 then (remainder / 2) ^^^ 0xedb88320 else remainder / 2

def divideByte (remainder : UInt32) (byte : UInt8) : UInt32 :=
  (List.range 8).foldl (fun sum _ => divideStep sum) (remainder ^^^ byte.toUInt32)

def checksum (content : Bytes) : UInt32 :=
  content.foldl divideByte 0xffffffff ^^^ 0xffffffff

end NameMigration.Archive
