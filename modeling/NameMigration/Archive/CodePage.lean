import NameMigration.Text.Utf8

/-!
Code page 437, in which the names of archive entries are written unless they say otherwise. The lower
half of the page is ASCII.
-/

namespace NameMigration.Archive.CodePage

def upperHalf : Text :=
  ("ÇüéâäàåçêëèïîìÄÅÉæÆôöòûùÿÖÜ¢£¥₧ƒáíóúñÑªº¿⌐¬½¼¡«»░▒▓│┤╡╢╖╕╣║╗╝╜╛┐└┴┬├─┼╞╟╚╔╩╦╠═╬╧╨╤╥╙╘╒╓╫╪┘┌█▄▌▐▀" ++
    "αßΓπΣσµτΦΘΩδ∞φε∩≡±≥≤⌠⌡÷≈°∙·√ⁿ²■\u00a0").toList

def charOfByte (byte : UInt8) : Char :=
  if byte < 0x80 then Char.ofNat byte.toNat
  else (upperHalf[byte.toNat - 0x80]?).getD '\ufffd'

def decode (bytes : Bytes) : Text :=
  bytes.map charOfByte

end NameMigration.Archive.CodePage
