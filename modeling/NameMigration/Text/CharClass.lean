import NameMigration.Text.AlphabeticTable
import NameMigration.Text.WordTable

/-!
The character classes that decide where a name begins and ends. All but one are Unicode classes; the
ASCII part is decided directly and the rest by table.
-/

namespace NameMigration.Text

def isBlank (c : Char) : Bool :=
  c.toNat ∈ [0x9, 0xa, 0xb, 0xc, 0xd, 0x20, 0x85, 0xa0, 0x1680, 0x2000, 0x2001, 0x2002, 0x2003,
    0x2004, 0x2005, 0x2006, 0x2007, 0x2008, 0x2009, 0x200a, 0x2028, 0x2029, 0x202f, 0x205f, 0x3000]

def isAlphabetic (c : Char) : Bool :=
  if c.val < 0x80 then c.isAlpha else alphabeticRanges.contains c.toNat

/-- The characters of a word: alphabetic characters, marks, decimal digits, connector punctuation
and join controls, as they were in Unicode 16. -/
def isWord (c : Char) : Bool :=
  if c.val < 0x80 then c.isAlphanum || c == '_'
  else
    (alphabeticRanges.contains c.toNat && !recentLetterRanges.contains c.toNat) ||
      wordOnlyRanges.contains c.toNat

def isNameChar (c : Char) : Bool :=
  c.isAlphanum || c == '_' || c == '$' || c == '.'

def isPathChar (c : Char) : Bool :=
  isWord c || c == '$' || c == '.'

end NameMigration.Text
