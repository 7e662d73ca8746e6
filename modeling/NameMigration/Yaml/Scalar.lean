import NameMigration.Yaml.Source

/-!
The texts of scalars: plain, quoted and block scalars. Inside a scalar that runs over several lines
a single line break is folded into a space. Nothing is answered for a malformed scalar.
-/

namespace NameMigration.Yaml

inductive ScalarStyle where
  | plain
  | quoted
  | literal
  | folded
  deriving DecidableEq, Repr

/-- What stands between two characters of a scalar: blanks on one line, or the break of a line with
further breaks. -/
structure Gap where
  blanks : Text := []
  crossed : Bool := false
  firstBreak : Text := []
  moreBreaks : Text := []
  deriving DecidableEq, Repr

namespace Gap

def extend (gap : Gap) (c : Char) : Gap :=
  if isBreak c then
    if gap.crossed then { gap with moreBreaks := gap.moreBreaks ++ [c] }
    else { crossed := true, firstBreak := [c] }
  else if gap.crossed then gap
  else { gap with blanks := gap.blanks ++ [c] }

def text (gap : Gap) : Text :=
  if !gap.crossed then gap.blanks
  else if gap.firstBreak = ['\n'] then
    if gap.moreBreaks = [] then [' '] else gap.moreBreaks
  else gap.firstBreak ++ gap.moreBreaks

end Gap

structure ScalarEnd where
  text : Text
  rest : Source
  crossed : Bool := false

/-- The rest of a plain scalar behind `text` and a gap. Inside brackets the scalar also ends at a
bracket or a comma; outside it ends where a line is indented less than `indent`. -/
def plainScalar (inFlow : Bool) (indent : Int) (text : Text) (gap : Gap) :
    Source → Option ScalarEnd
  | [] => some ⟨text, [], gap.crossed⟩
  | placed :: rest =>
      let c := placed.char
      let here : Source := placed :: rest
      let ended := some ⟨text, here, gap.crossed⟩
      let afterGap := gap.crossed || gap.blanks ≠ []
      if isBreak c then plainScalar inFlow indent text (gap.extend c) rest
      else if isSpace c then
        if gap.crossed && c = '\t' && placed.column < indent then none
        else plainScalar inFlow indent text (gap.extend c) rest
      else if afterGap && !inFlow && placed.column < indent then ended
      else if here.atDocumentMarker then ended
      else if afterGap && c = '#' then ended
      else if inFlow && c = ':' && Source.startsWith rest (",?[]\x7b\x7d".contains ·) then none
      else if c = ':' && Source.atGap rest then ended
      else if inFlow && ",[]\x7b\x7d".contains c then ended
      else plainScalar inFlow indent (text ++ gap.text ++ [c]) {} rest

def singleQuoted (text : Text) (gap : Gap) : Source → Option ScalarEnd
  | [] => none
  | placed :: rest =>
      let c := placed.char
      if Source.atDocumentMarker (placed :: rest) then none
      else if isBreak c || isSpace c then singleQuoted text (gap.extend c) rest
      else if c = '\'' then
        match rest with
        | second :: behind =>
            if second.char = '\'' then singleQuoted (text ++ gap.text ++ ['\'']) {} behind
            else some { text := text ++ gap.text, rest }
        | [] => some { text := text ++ gap.text, rest }
      else singleQuoted (text ++ gap.text ++ [c]) {} rest

def escapedChar? : Char → Option Char
  | '0' => some '\x00'
  | 'a' => some '\x07'
  | 'b' => some '\x08'
  | 't' => some '\t'
  | '\t' => some '\t'
  | 'n' => some '\n'
  | 'v' => some '\x0b'
  | 'f' => some '\x0c'
  | 'r' => some '\r'
  | 'e' => some '\x1b'
  | ' ' => some ' '
  | '"' => some '"'
  | '/' => some '/'
  | '\\' => some '\\'
  | 'N' => some '\x85'
  | '_' => some '\xa0'
  | 'L' => some '\u2028'
  | 'P' => some '\u2029'
  | _ => none

def escapeLength? : Char → Option Nat
  | 'x' => some 2
  | 'u' => some 4
  | 'U' => some 8
  | _ => none

def hexValue? (c : Char) : Option Nat :=
  if '0' ≤ c ∧ c ≤ '9' then some (c.toNat - '0'.toNat)
  else if 'a' ≤ c ∧ c ≤ 'f' then some (c.toNat - 'a'.toNat + 10)
  else if 'A' ≤ c ∧ c ≤ 'F' then some (c.toNat - 'A'.toNat + 10)
  else none

def hexChar? (digits : Text) : Option Char := do
  let value ← digits.foldlM (fun value c => (hexValue? c).map (value * 16 + ·)) 0
  if value.isValidChar then some (Char.ofNat value) else none

def doubleQuoted (text : Text) (gap : Gap) (source : Source) : Option ScalarEnd :=
  match source with
  | [] => none
  | placed :: rest =>
      let c := placed.char
      if Source.atDocumentMarker (placed :: rest) then none
      else if isBreak c || isSpace c then doubleQuoted text (gap.extend c) rest
      else if c = '"' then some { text := text ++ gap.text, rest }
      else if c = '\\' then
        match rest with
        | [] => none
        | escape :: behind =>
            if isBreak escape.char then doubleQuoted (text ++ gap.text) { crossed := true } behind
            else
              match escapedChar? escape.char, escapeLength? escape.char with
              | some meant, _ => doubleQuoted (text ++ gap.text ++ [meant]) {} behind
              | none, some count =>
                  let digits := (behind.take count).map (·.char)
                  match hexChar? digits with
                  | some meant =>
                      if digits.length = count then
                        doubleQuoted (text ++ gap.text ++ [meant]) {} (behind.drop count)
                      else none
                  | none => none
              | none, none => none
      else doubleQuoted (text ++ gap.text ++ [c]) {} rest
  termination_by source.length
  decreasing_by all_goals simp_all <;> omega

inductive Chomping where
  | strip
  | clip
  | keep
  deriving DecidableEq, Repr

/-- Empty lines at the start of a line of a block scalar: their breaks, the source behind them, and
the deepest indentation seen. Without a known indentation all spaces are indentation. -/
def blockBreaks (indent : Option Nat) (breaks : Text) (deepest : Nat) :
    Source → Option (Text × Source × Nat)
  | [] => some (breaks, [], deepest)
  | placed :: rest =>
      let inIndent := indent.all (placed.column < ·)
      if inIndent && placed.char = ' ' then blockBreaks indent breaks deepest rest
      else if inIndent && placed.char = '\t' then none
      else
        let deepest := max deepest placed.column
        if isBreak placed.char then blockBreaks indent (breaks ++ [placed.char]) deepest rest
        else some (breaks, placed :: rest, deepest)

/-- The lines of a block scalar behind `text`. The break of the last line, `lineBreak`, and the
breaks of the empty lines behind it, `breaks`, are still to be written. -/
def blockLines (isLiteral : Bool) (indent : Nat) (chomping : Chomping) (text lineBreak breaks : Text)
    (afterBlank : Bool) (source : Source) : Option ScalarEnd :=
  let ended :=
    let kept := match chomping with
      | .strip => []
      | .clip => lineBreak
      | .keep => lineBreak ++ breaks
    some { text := text ++ kept, rest := source, crossed := true }
  match source with
  | [] => ended
  | placed :: others =>
      if placed.column ≠ indent then ended
      else
        let startsBlank := isSpace placed.char
        let joint :=
          if !isLiteral && lineBreak = ['\n'] && !afterBlank && !startsBlank then
            if breaks = [] then [' '] else breaks
          else lineBreak ++ breaks
        let line := ((placed :: others).takeWhile fun placed => !isBreak placed.char).map (·.char)
        let text := text ++ joint ++ line
        match (placed :: others).dropWhile fun placed => !isBreak placed.char with
        | [] => blockLines isLiteral indent chomping text [] [] startsBlank []
        | lineEnd :: behind =>
            match blockBreaks (some indent) [] 0 behind with
            | none => none
            | some (breaks, rest, _) =>
                if rest.length < (placed :: others).length then
                  blockLines isLiteral indent chomping text [lineEnd.char] breaks startsBlank rest
                else none
  termination_by source.length
  decreasing_by all_goals simp only [List.length_cons, List.length_nil] at *; omega

def blockHeader? (source : Source) : Option (Chomping × Option Nat × Source) :=
  let chomping (source : Source) : Option Chomping × Source :=
    match source with
    | placed :: rest =>
        if placed.char = '+' then (some .keep, rest)
        else if placed.char = '-' then (some .strip, rest)
        else (none, source)
    | [] => (none, source)
  let increment (source : Source) : Option (Option Nat × Source) :=
    match source with
    | placed :: rest =>
        if placed.char = '0' then none
        else if placed.char.isDigit then some (some (placed.char.toNat - '0'.toNat), rest)
        else some (none, source)
    | [] => some (none, source)
  match chomping source with
  | (some kept, rest) => (increment rest).map fun (deeper, rest) => (kept, deeper, rest)
  | (none, rest) =>
      (increment rest).map fun (deeper, rest) =>
        if deeper.isSome then
          let (kept, rest) := chomping rest
          (kept.getD .clip, deeper, rest)
        else (.clip, deeper, rest)

def blockScalar (isLiteral : Bool) (parent : Int) (source : Source) : Option ScalarEnd := do
  let (chomping, deeper, rest) ← blockHeader? source
  let rest : Source := rest.dropWhile fun placed => isSpace placed.char
  let rest : Source :=
    if rest.startsWith (· = '#') then rest.dropWhile fun placed => !isBreak placed.char else rest
  let body ← match rest with
    | [] => some []
    | placed :: behind => if isBreak placed.char then some behind else none
  let known := deeper.map fun increment => parent.toNat + increment
  let (breaks, content, deepest) ← blockBreaks known [] 0 body
  let indent := known.getD (max deepest (max (parent + 1).toNat 1))
  blockLines isLiteral indent chomping [] [] breaks false content

end NameMigration.Yaml
