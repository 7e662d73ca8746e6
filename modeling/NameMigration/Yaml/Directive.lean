import NameMigration.Yaml.Tag

/-!
Directives: lines in front of a document that begin with a percent sign. One tells the version of
YAML, the others tell what the handles of tags stand for. Nothing is answered for a malformed line.
-/

namespace NameMigration.Yaml

inductive Directive where
  | version
  | tagHandle (handle : Text) (octets : Bytes)
  deriving DecidableEq, Repr

namespace Directive

def meaning? : Directive → Option (Text × Bytes)
  | .version => none
  | .tagHandle handle octets => some (handle, octets)

def areDistinct (directives : List Directive) : Bool :=
  (directives.map fun directive => directive.meaning?.map (·.1)).Nodup

def numberAt? (source : Source) : Option (Nat × Source) :=
  let (digits, rest) := source.run Char.isDigit
  if digits = [] ∨ 9 < digits.length then none
  else some (digits.foldl (fun number c => 10 * number + (c.toNat - '0'.toNat)) 0, rest)

def versionAt? (source : Source) : Option (Directive × Source) := do
  let (major, rest) ← numberAt? source
  if rest.startsWith (· = '.') then
    let (minor, rest) ← numberAt? rest.tail
    if major = 1 ∧ (minor = 1 ∨ minor = 2) then some (.version, rest) else none
  else none

/-- A handle and a tag for it. A handle is an exclamation mark, alone or with another one and
possibly a name between them. -/
def handleAt? (source : Source) : Option (Directive × Source) := do
  if source.startsWith (· = '!') then
    let behind : Source := source.tail
    let (name, rest) := behind.run isNameChar
    let isNamed := rest.startsWith (· = '!')
    let rest : Source := if isNamed then rest.tail else rest
    if name ≠ [] && !isNamed || !rest.startsWith isSpace then none
    else
      let (octets, rest) ← Tag.contentAt? rest.dropSpaces isEnclosedTagChar
      let handle := if isNamed then '!' :: name ++ ['!'] else ['!']
      if rest.atGap then some (.tagHandle handle octets, rest) else none
  else none

def read? (source : Source) : Option (Directive × Source) := do
  let (name, rest) := source.run isNameChar
  if !rest.atGap then none
  else
    let (directive, rest) ←
      if name = "YAML".toList then versionAt? rest.dropSpaces
      else if name = "TAG".toList then handleAt? rest.dropSpaces
      else none
    let rest := rest.dropSpaces
    let rest := if rest.startsWith (· = '#') then (rest.run (!isBreak ·)).2 else rest
    if rest.atLineEnd then some (directive, rest.tail) else none

end Directive

end NameMigration.Yaml
