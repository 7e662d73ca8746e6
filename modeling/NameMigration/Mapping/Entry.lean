import NameMigration.Mapping.Rename

/-!
Lines of a mapping file. An entry is an unindented line with the legacy and the new path of a class,
`net/old/Outer$Inner net/current/Name`. Indented lines describe members and say nothing about
classes; blank lines and lines that start with `#` are comments.
-/

namespace NameMigration

/-- The class name that a path stands for: packages end at slashes, and a dollar or a dot divides an
outer from an inner class. No package and no class may be empty. -/
def ClassName.ofPath? (path : Text) : Option ClassName :=
  let packages := (path.splitOn '/').dropLast
  let name : Text := ((path.splitOn '/').getLastD []).map fun c => if c = '$' then '.' else c
  if [] ∈ packages ∨ [] ∈ name.segments then none
  else some ⟨packages.flatMap (· ++ ['.']), name⟩

/-- The renaming that a line of exactly two paths describes. The new class may be inside another one
but no deeper. -/
def Rename.ofEntry? (line : Text) : Option Rename :=
  match line.words with
  | [legacyPath, targetPath] => do
      let legacy ← ClassName.ofPath? legacyPath
      let target ← ClassName.ofPath? targetPath
      if target.name.segments.length ≤ 2 then some ⟨legacy, target⟩ else none
  | _ => none

inductive MappingLine where
  | silent
  | malformed
  | entry (rename : Rename)
  deriving DecidableEq, Repr

def MappingLine.isMember (line : Text) : Bool :=
  [' ', ' ', ' ', ' '].isPrefixOf line || ['\t'].isPrefixOf line

def MappingLine.ofText (line : Text) : MappingLine :=
  if isMember line then .silent
  else
    match line.trim with
    | [] => .silent
    | '#' :: _ => .silent
    | content =>
        match Rename.ofEntry? content with
        | some rename => .entry rename
        | none => .malformed

end NameMigration
