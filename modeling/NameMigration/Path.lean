import NameMigration.Text.Basic

/-!
File paths. A path is kept as it was written, but its meaning is its components: repeated slashes, a
slash at the end and dots inside or at the end say nothing.
-/

namespace NameMigration

abbrev Path := Text

namespace Path

inductive Component where
  | root
  | current
  | parent
  | name (name : Text)
  deriving DecidableEq, Repr

structure Parts where
  lead : Text
  pieces : List Text
  deriving DecidableEq, Repr

namespace Parts

def ofPath (path : Path) : Parts :=
  match path with
  | '/' :: rest => ⟨['/'], rest.splitOn '/'⟩
  | ['.'] => ⟨['.'], [[]]⟩
  | '.' :: '/' :: rest => ⟨['.'], [] :: rest.splitOn '/'⟩
  | rest => ⟨[], rest.splitOn '/'⟩

def isSilent (piece : Text) : Bool :=
  piece = [] || piece = ['.']

def trimEnd (pieces : List Text) : List Text :=
  (pieces.reverse.dropWhile isSilent).reverse

def toPath (parts : Parts) : Path :=
  parts.lead ++ Text.joinWith ['/'] parts.pieces

def leadComponents (parts : Parts) : List Component :=
  match parts.lead with
  | ['/'] => [.root]
  | ['.'] => [.current]
  | _ => []

def pieceComponent (piece : Text) : Component :=
  if piece = ['.', '.'] then .parent else .name piece

def components (parts : Parts) : List Component :=
  parts.leadComponents ++ (parts.pieces.filter (!isSilent ·)).map pieceComponent

def dropComponents : Nat → List Text → List Text
  | 0, pieces => pieces
  | _ + 1, [] => []
  | count + 1, piece :: rest =>
      if isSilent piece then dropComponents (count + 1) rest else dropComponents count rest

end Parts

def components (path : Path) : List Component :=
  (Parts.ofPath path).components

def sameAs (first second : Path) : Bool :=
  first.components = second.components

def isAbsolute (path : Path) : Bool :=
  path.head? = some '/'

/-- The path `relative` seen from the directory `base`. An absolute path stays what it is. -/
def join (base relative : Path) : Path :=
  if relative.isAbsolute then relative
  else if base = [] ∨ base.getLast? = some '/' then base ++ relative
  else base ++ '/' :: relative

/-- The paths of the directories around what the pieces lead to, the nearest one first. The pieces are
given last one first. -/
def Parts.outer (lead : Text) : (pieces : List Text) → List Path
  | [] => if lead = ['.'] then [[]] else []
  | piece :: others =>
      if isSilent piece then outer lead others
      else toPath ⟨lead, (others.dropWhile isSilent).reverse⟩ :: outer lead others

def ancestors (path : Path) : List Path :=
  let parts := Parts.ofPath path
  Parts.outer parts.lead parts.pieces.reverse

def parent? (path : Path) : Option Path :=
  path.ancestors.head?

def relativeTo? (base path : Path) : Option Path :=
  let front := base.components
  if front.isPrefixOf path.components then
    let parts := Parts.ofPath path
    if front.isEmpty then some (Parts.toPath ⟨parts.lead, Parts.trimEnd parts.pieces⟩)
    else
      let behind := Parts.dropComponents (front.length - parts.leadComponents.length) parts.pieces
      some (Parts.toPath ⟨[], Parts.trimEnd (behind.dropWhile Parts.isSilent)⟩)
  else none

def placedUnder? (base target path : Path) : Option Path :=
  (base.relativeTo? path).map target.join

def fileName? (path : Path) : Option Text :=
  match path.components.getLast? with
  | some (.name name) => some name
  | _ => none

/-- The part of the file name behind its last dot. A dot at the start of the name begins no
extension. -/
def extension? (path : Path) : Option Text :=
  path.fileName?.bind fun name =>
    match (name.splitOn '.').reverse with
    | last :: _ :: others => if others = [] ∧ name.head? = some '.' then none else some last
    | _ => none

end Path

end NameMigration
