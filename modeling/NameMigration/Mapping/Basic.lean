import NameMigration.Mapping.Entry

/-!
The mapping of a migration: every class that is renamed, by its legacy name. A later entry for a
name takes the place of an earlier one, so each name is renamed in one way.
-/

namespace NameMigration

abbrev Rename.Ordered : (renames : List Rename) → Prop :=
  Keyed.Increasing Rename.key

structure Mapping where
  renames : List Rename
  malformed : Nat
  ordered : Rename.Ordered renames

namespace Mapping

def empty : Mapping := ⟨[], 0, List.Pairwise.nil⟩

def addLine (mapping : Mapping) (line : Text) : Mapping :=
  match MappingLine.ofText line with
  | .silent => mapping
  | .malformed => { mapping with malformed := mapping.malformed + 1 }
  | .entry rename =>
      { mapping with
        renames := Keyed.put Rename.key rename mapping.renames
        ordered := mapping.ordered.put rename }

def ofLines (lines : List Text) : Mapping :=
  lines.foldl addLine empty

def flat (mapping : Mapping) : List Rename :=
  mapping.renames.filter (!·.isNested)

def nested (mapping : Mapping) : List Rename :=
  mapping.renames.filter (·.isNested)

def find? (mapping : Mapping) (name : Text) : Option Rename :=
  mapping.renames.find? (·.key = name)

def findFlat? (mapping : Mapping) (name : Text) : Option Rename :=
  (mapping.find? name).filter (!·.isNested)

def findNested? (mapping : Mapping) (name : Text) : Option Rename :=
  (mapping.find? name).filter (·.isNested)

/-- The renaming that an imported path names. The last two parts may be the key of a class that
becomes nested; otherwise the last part is the key. -/
def findImported? (mapping : Mapping) (path : Text) : Option Rename :=
  match path.segments.reverse with
  | [] => none
  | last :: others =>
      if last = [] then none
      else
        let inner := others.head?.bind fun outer => mapping.findNested? (outer ++ '.' :: last)
        inner.or (mapping.find? last)

def inPackage (mapping : Mapping) (qualifier : Text) : List Rename :=
  mapping.flat.filter (·.legacy.qualifier = qualifier)

def packages (mapping : Mapping) : List Text :=
  Text.ordered (mapping.flat.map (·.legacy.qualifier))

end Mapping

end NameMigration
