import NameMigration.Text.Utf8
import NameMigration.Yaml.Scalar

/-!
Tags of nodes as they are written. A tag is a sequence of octets; those that are not printable are
escaped by a percent sign and two hexadecimal digits. Nothing is answered for a malformed tag.
-/

namespace NameMigration.Yaml

def isNameChar (c : Char) : Bool :=
  c.isAlphanum || c = '_' || c = '-'

def isTagChar (c : Char) : Bool :=
  isNameChar c || ";/?:@&=+$.!~*'()%".contains c

def isEnclosedTagChar (c : Char) : Bool :=
  isTagChar c || ",[]".contains c

structure Tag where
  handle : Text
  suffix : Bytes
  deriving DecidableEq, Repr

namespace Tag

def followers? (octet : Nat) : Option Nat :=
  if octet < 0x80 then some 0
  else if octet < 0xc0 then none
  else if octet < 0xe0 then some 1
  else if octet < 0xf0 then some 2
  else if octet < 0xf8 then some 3
  else none

/-- The octets that ASCII characters with escapes stand for. When an escape is the first octet of a
character, escapes for the octets that follow it come next: `pending` of them are still to come. -/
def octets? : (pending : Nat) → Text → Option Bytes
  | 0, [] => some []
  | pending, '%' :: high :: low :: rest => do
      let octet := (← hexValue? high) * 16 + (← hexValue? low)
      let pending ← match pending with
        | 0 => followers? octet
        | pending + 1 => if octet / 64 = 2 then some pending else none
      return octet.toUInt8 :: (← octets? pending rest)
  | 0, c :: rest => if c = '%' then none else (octets? 0 rest).map (c.toNat.toUInt8 :: ·)
  | _ + 1, _ => none

def content? (text : Text) : Option Bytes :=
  (octets? 0 text).map (·.takeWhile (· ≠ 0))

def contentAt? (source : Source) (class_ : Char → Bool) : Option (Bytes × Source) := do
  let (text, rest) := source.run class_
  if text = [] then none else return (← content? text, rest)

/-- A tag behind its exclamation mark: a whole tag between angle brackets, a suffix behind a named
handle, or a suffix alone. The exclamation mark alone is a tag as well. -/
def read? (source : Source) : Option (Tag × Source) := do
  if source.startsWith (· = '<') then
    let (suffix, rest) ← contentAt? source.tail isEnclosedTagChar
    if rest.startsWith (· = '>') then some (⟨[], suffix⟩, rest.tail) else none
  else
    let (name, rest) := source.run isNameChar
    if rest.startsWith (· = '!') then
      let (suffix, rest) ← contentAt? rest.tail isTagChar
      return (⟨'!' :: name ++ ['!'], suffix⟩, rest)
    else
      let (text, rest) := source.run isTagChar
      let suffix ← content? text
      return (if suffix = [] then ⟨[], Text.utf8 ['!']⟩ else ⟨['!'], suffix⟩, rest)

end Tag

end NameMigration.Yaml
