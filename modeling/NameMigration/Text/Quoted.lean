import NameMigration.Text.Basic
import NameMigration.Text.UnprintableTable

/-!
Quoted text for messages: everything that cannot be seen is written as an escape.
-/

namespace NameMigration.Text

def hexDigits (codePoint : Nat) : Text :=
  Nat.toDigits 16 codePoint

def quoteChar (c : Char) : Text :=
  match c with
  | '\x00' => ['\\', '0']
  | '\t' => ['\\', 't']
  | '\r' => ['\\', 'r']
  | '\n' => ['\\', 'n']
  | '\\' => ['\\', '\\']
  | '"' => ['\\', '"']
  | _ =>
      if c.toNat < 0x20 ∨ c.toNat = 0x7f ∨ unprintableRanges.contains c.toNat then
        ['\\', 'u', '\x7b'] ++ hexDigits c.toNat ++ ['\x7d']
      else [c]

def quoted (text : Text) : Text :=
  ['"'] ++ text.flatMap quoteChar ++ ['"']

end NameMigration.Text
