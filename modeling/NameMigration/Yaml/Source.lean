import NameMigration.Text.Basic

/-!
The characters of a YAML text with their places. Line breaks are made uniform, so that a place has
one character and the rest of the text is a list.
-/

namespace NameMigration.Yaml

structure Placed where
  char : Char
  line : Nat
  column : Nat
  index : Nat
  deriving DecidableEq, Repr

abbrev Source := List Placed

def isBreak (c : Char) : Bool :=
  c = '\n' || c = '\r' || c = '\x85' || c = '\u2028' || c = '\u2029'

def isSpace (c : Char) : Bool :=
  c = ' ' || c = '\t'

def isAllowed (c : Char) : Bool :=
  let n := c.toNat
  n = 0x9 || n = 0xa || n = 0xd || (0x20 ≤ n && n ≤ 0x7e) || n = 0x85 ||
    (0xa0 ≤ n && n ≤ 0xd7ff) || (0xe000 ≤ n && n ≤ 0xfffd) || 0x10000 ≤ n

/-- The characters with their places. A carriage return with a line feed behind it is one break, and
a break is written as a line feed unless it is a line or paragraph separator. -/
def Source.place : (line column index : Nat) → Text → Source
  | _, _, _, [] => []
  | line, column, index, '\r' :: '\n' :: rest =>
      ⟨'\n', line, column, index⟩ :: place (line + 1) 0 (index + 2) rest
  | line, column, index, c :: rest =>
      if isBreak c then
        let char := if c = '\r' ∨ c = '\x85' then '\n' else c
        ⟨char, line, column, index⟩ :: place (line + 1) 0 (index + c.utf8Size) rest
      else ⟨c, line, column, index⟩ :: place line (column + 1) (index + c.utf8Size) rest

def Source.ofText? (text : Text) : Option Source :=
  if text.all isAllowed then some (Source.place 0 0 0 text) else none

namespace Source

def startsWith (source : Source) (class_ : Char → Bool) : Bool :=
  source.head?.any fun placed => class_ placed.char

def run (source : Source) (class_ : Char → Bool) : Text × Source :=
  ((source.takeWhile fun placed => class_ placed.char).map (·.char),
    source.dropWhile fun placed => class_ placed.char)

def dropSpaces (source : Source) : Source :=
  (source.run isSpace).2

def atGap (source : Source) : Bool :=
  source.head?.all fun placed => isBreak placed.char || isSpace placed.char

def atLineEnd (source : Source) : Bool :=
  source.head?.all fun placed => isBreak placed.char

def atMarker (source : Source) (marker : Char) : Bool :=
  match source with
  | first :: second :: third :: rest =>
      first.column = 0 && first.char = marker && second.char = marker && third.char = marker &&
        atGap rest
  | _ => false

def atDocumentMarker (source : Source) : Bool :=
  atMarker source '-' || atMarker source '.'

end Source

end NameMigration.Yaml
