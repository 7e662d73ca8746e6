import NameMigration.Text.Basic

/-!
Import statements: their parts, their text, and reading one from the front of a text. The main
statement is that reading loses nothing: the text is that of the statement and what follows it.
-/

namespace NameMigration

open Text (isBlank isPathChar)

structure ImportStatement where
  gap : Text
  staticGap : Option Text
  path : Text
  isWildcard : Bool
  endGap : Text
  deriving DecidableEq, Repr

namespace ImportStatement

def importKeyword : Text := ['i', 'm', 'p', 'o', 'r', 't']

def staticKeyword : Text := ['s', 't', 'a', 't', 'i', 'c']

def isStatic (statement : ImportStatement) : Bool :=
  statement.staticGap.isSome

def text (statement : ImportStatement) : Text :=
  importKeyword ++ statement.gap
    ++ (match statement.staticGap with
      | some gap => staticKeyword ++ gap
      | none => [])
    ++ statement.path ++ (if statement.isWildcard then ['.', '*'] else []) ++ statement.endGap
    ++ [';']

def simpleName? (statement : ImportStatement) : Option Text :=
  if statement.isWildcard then none
  else (statement.path.segments.getLast?).filter (· ≠ [])

/-- The path, the blanks and the semicolon at the front of a text. A path runs as far as path
characters do; with `*;` behind it, its last dot belongs to the wildcard. -/
def targetOf? (gap : Text) (staticGap : Option Text) (source : Text) :
    Option (ImportStatement × Text) :=
  let path := source.takeWhile isPathChar
  match source.dropWhile isPathChar with
  | '*' :: behind =>
      match behind.dropWhile isBlank with
      | ';' :: rest =>
          if path.getLast? = some '.' ∧ path.dropLast ≠ [] then
            some (⟨gap, staticGap, path.dropLast, true, behind.takeWhile isBlank⟩, rest)
          else none
      | _ => none
  | behind =>
      match behind.dropWhile isBlank with
      | ';' :: rest =>
          if path ≠ [] then some (⟨gap, staticGap, path, false, behind.takeWhile isBlank⟩, rest)
          else none
      | _ => none

def staticTargetOf? (gap source : Text) : Option (ImportStatement × Text) :=
  match Text.after? staticKeyword source with
  | none => none
  | some behind =>
      if behind.takeWhile isBlank = [] then none
      else targetOf? gap (some (behind.takeWhile isBlank)) (behind.dropWhile isBlank)

/-- The import statement at the front of a text, and the text behind it. A path may itself be
`static`, so the keyword is only taken for one if a target follows it. -/
def ofFront? (source : Text) : Option (ImportStatement × Text) :=
  match Text.after? importKeyword source with
  | none => none
  | some behind =>
      let gap := behind.takeWhile isBlank
      let target := behind.dropWhile isBlank
      if gap = [] then none
      else (staticTargetOf? gap target).or (targetOf? gap none target)

private def targetText (statement : ImportStatement) : Text :=
  statement.path ++ (if statement.isWildcard then ['.', '*'] else []) ++ statement.endGap ++ [';']

private theorem targetOf?_text {gap : Text} {staticGap : Option Text} {source rest : Text}
    {statement : ImportStatement} (found : targetOf? gap staticGap source = some (statement, rest)) :
    source = statement.targetText ++ rest ∧ statement.gap = gap ∧
      statement.staticGap = staticGap := by
  have parts := List.takeWhile_append_dropWhile (p := isPathChar) (l := source)
  unfold targetOf? at found
  simp only at found
  split at found
  · rename_i behind starred
    have blanks := List.takeWhile_append_dropWhile (p := isBlank) (l := behind)
    split at found
    · rename_i ending closed
      split at found
      · rename_i dotted
        simp only [Option.some.injEq, Prod.mk.injEq] at found
        obtain ⟨rfl, rfl⟩ := found
        have lastDot : source.takeWhile isPathChar =
            (source.takeWhile isPathChar).dropLast ++ ['.'] := by
          have nonempty : source.takeWhile isPathChar ≠ [] := by
            intro absent
            simp [absent] at dotted
          have last := List.dropLast_concat_getLast nonempty
          rw [List.getLast?_eq_some_getLast nonempty, Option.some.injEq] at dotted
          rw [dotted.1] at last
          exact last.symm
        refine ⟨?_, rfl, rfl⟩
        rw [starred, lastDot, ← blanks, closed] at parts
        exact parts.symm.trans (by simp [targetText])
      · exact absurd found (by simp)
    · exact absurd found (by simp)
  · rename_i behind unstarred
    have blanks := List.takeWhile_append_dropWhile (p := isBlank)
      (l := source.dropWhile isPathChar)
    split at found
    · rename_i ending closed
      split at found
      · simp only [Option.some.injEq, Prod.mk.injEq] at found
        obtain ⟨rfl, rfl⟩ := found
        refine ⟨?_, rfl, rfl⟩
        rw [← blanks, closed] at parts
        exact parts.symm.trans (by simp [targetText])
      · exact absurd found (by simp)
    · exact absurd found (by simp)

theorem ofFront?_text {source rest : Text} {statement : ImportStatement}
    (found : ofFront? source = some (statement, rest)) : source = statement.text ++ rest := by
  unfold ofFront? at found
  split at found
  · exact absurd found (by simp)
  · rename_i behind keyword
    have front := Text.after?_eq_some_iff.mp keyword
    have blanks := List.takeWhile_append_dropWhile (p := isBlank) (l := behind)
    simp only at found
    split at found
    · exact absurd found (by simp)
    · rcases Option.or_eq_some_iff.mp found with staticFound | ⟨_, plainFound⟩
      · unfold staticTargetOf? at staticFound
        split at staticFound
        · exact absurd staticFound (by simp)
        · rename_i more staticWord
          have staticFront := Text.after?_eq_some_iff.mp staticWord
          have moreBlanks := List.takeWhile_append_dropWhile (p := isBlank) (l := more)
          split at staticFound
          · exact absurd staticFound (by simp)
          · obtain ⟨target, sameGap, sameStatic⟩ := targetOf?_text staticFound
            rw [target] at moreBlanks
            rw [staticFront, ← moreBlanks] at blanks
            rw [front, ← blanks]
            simp [text, targetText, sameGap, sameStatic]
      · obtain ⟨target, sameGap, sameStatic⟩ := targetOf?_text plainFound
        rw [target] at blanks
        rw [front, ← blanks]
        simp [text, targetText, sameGap, sameStatic]

theorem length_lt_of_ofFront? {source rest : Text} {statement : ImportStatement}
    (found : ofFront? source = some (statement, rest)) : rest.length < source.length := by
  rw [ofFront?_text found]
  simp [text]
  omega

end ImportStatement

end NameMigration
