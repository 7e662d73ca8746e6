import NameMigration.Import.Statement

/-!
Import lines: the statements on a line, and a line without the imports of one namespace.
-/

namespace NameMigration

open Text (isBlank isWord)

def inNamespace (space path : Text) : Bool :=
  match Text.after? space path with
  | some [] => true
  | some ('.' :: _) => true
  | _ => false

theorem inNamespace_iff {space path : Text} :
    inNamespace space path = true ↔ path = space ∨ ∃ rest, path = space ++ '.' :: rest := by
  unfold inNamespace
  split
  · rename_i found
    simp [Text.after?_eq_some_iff.mp found]
  · rename_i rest found
    simp [Text.after?_eq_some_iff.mp found]
  · rename_i notSame notBelow
    simp only [Bool.false_eq_true, false_iff, not_or, not_exists]
    refine ⟨?_, ?_⟩
    · rintro rfl
      exact notSame (Text.after?_eq_some_iff.mpr (List.append_nil path).symm)
    · rintro rest rfl
      exact notBelow rest (Text.after?_append space ('.' :: rest))

namespace ImportStatement

def isFrom (space : Text) (statement : ImportStatement) : Bool :=
  inNamespace space statement.path

/-- The statements in a text, from left to right. A statement does not start inside a word, so
`afterWord` says whether the character before the text is one of a word. -/
def allIn (afterWord : Bool) (source : Text) : List ImportStatement :=
  match source with
  | [] => []
  | c :: behind =>
      if afterWord then allIn (isWord c) behind
      else
        match found : ofFront? (c :: behind) with
        | none => allIn (isWord c) behind
        | some (statement, rest) =>
            have _shorter := length_lt_of_ofFront? found
            statement :: allIn false rest
  termination_by source.length
  decreasing_by all_goals simp only [List.length_cons] at *; omega

end ImportStatement

def isImportLine (line : Text) : Bool :=
  match Text.after? ImportStatement.importKeyword line.trimStart with
  | some (c :: _) => isBlank c
  | _ => false

def importsOn (line : Text) : List ImportStatement :=
  if isImportLine line then ImportStatement.allIn false line else []

/-- How many statements on the line import from the namespace, and the line that is left without
them: the other statements at the old indentation, a space between them. Nothing is answered for a
line without such a statement, and nothing is left of a line with no other. -/
def withoutImportsFrom? (space line : Text) : Option (Nat × Text) :=
  let (dropped, kept) := (importsOn line).partition (·.isFrom space)
  if dropped.isEmpty then none
  else if kept.isEmpty then some (dropped.length, [])
  else some (dropped.length,
    line.takeWhile isBlank ++ Text.joinWith [' '] (kept.map ImportStatement.text))

end NameMigration
