import NameMigration.Yaml.Directive

/-!
The tokens of a YAML text. Indentation becomes start and end tokens, and a key is only known to be
one at its colon, so the places where a key may have started are kept until then. Nothing is
answered for a malformed text.
-/

namespace NameMigration.Yaml

inductive Token where
  | directive (directive : Directive)
  | documentStart
  | documentEnd
  | blockSequenceStart
  | blockMappingStart
  | blockEnd
  | flowSequenceStart
  | flowSequenceEnd
  | flowMappingStart
  | flowMappingEnd
  | blockEntry
  | flowEntry
  | key
  | value
  | alias (name : Text)
  | anchor (name : Text)
  | tag (tag : Tag)
  | scalar (text : Text) (style : ScalarStyle)
  deriving DecidableEq, Repr

structure PossibleKey where
  position : Nat
  line : Nat
  column : Nat
  index : Nat
  isRequired : Bool
  deriving DecidableEq, Repr

structure TokenState where
  tokens : Array Token := #[]
  keyAllowed : Bool := true
  indent : Int := -1
  outer : List Int := []
  keys : List (Option PossibleKey) := [none]
  deriving Repr

namespace TokenState

def inFlow (state : TokenState) : Bool :=
  state.keys.length > 1

def push (state : TokenState) (token : Token) : TokenState :=
  { state with tokens := state.tokens.push token }

/-- The state with its innermost possible key given up. A key that had to come must not be. -/
def dropKey? (state : TokenState) : Option TokenState :=
  match state.keys with
  | some key :: others => if key.isRequired then none else some { state with keys := none :: others }
  | _ => some state

def noteKey? (state : TokenState) (here : Placed) : Option TokenState := do
  if state.keyAllowed then
    let state ← state.dropKey?
    let key : PossibleKey := {
      position := state.tokens.size
      line := here.line
      column := here.column
      index := here.index
      isRequired := !state.inFlow && state.indent = here.column }
    return { state with keys := some key :: state.keys.tail }
  else return state

def dropStaleKeys? (state : TokenState) (line index : Nat) : Option TokenState := do
  let keys ← state.keys.mapM fun
    | some key =>
        if key.line < line ∨ key.index + 1024 < index then
          if key.isRequired then none else some none
        else some (some key)
    | none => some none
  return { state with keys }

/-- The state with a block opened at the column, if it is deeper than the block around it. Its start
token stands before the token at `position`. -/
def openBlock (state : TokenState) (column position : Nat) (start : Token) : TokenState :=
  if !state.inFlow && state.indent < column then
    { state with
      indent := column
      outer := state.indent :: state.outer
      tokens := state.tokens.insertIdxIfInBounds position start }
  else state

def closeBlocks (state : TokenState) (column : Int) : TokenState :=
  if state.inFlow then state else go state.outer state
where
  go : List Int → TokenState → TokenState
    | around :: outer, state =>
        if state.indent > column then
          go outer { state.push .blockEnd with indent := around, outer }
        else state
    | [], state => state

end TokenState

/-- The source behind blanks, comments and line ends, and whether a line ended. A tab is no blank
where a key may start outside of brackets, and a byte order mark is one at the start of a line. -/
def skipGaps (inFlow keyAllowed inComment : Bool) : Source → Source × Bool
  | [] => ([], false)
  | placed :: rest =>
      let c := placed.char
      if isBreak c then
        let (source, _) := skipGaps inFlow true false rest
        (source, true)
      else if inComment || c = ' ' || (c = '\t' && (inFlow || !keyAllowed)) ||
          (c = '\ufeff' && placed.column = 0) then
        skipGaps inFlow keyAllowed inComment rest
      else if c = '#' then skipGaps inFlow keyAllowed true rest
      else (placed :: rest, false)

def anchorName? (source : Source) : Option (Text × Source) :=
  let (name, rest) := source.run isNameChar
  if name ≠ [] && (rest.atGap || rest.startsWith ("?:,]\x7d%@".contains ·)) then
    some (name, rest)
  else none

namespace TokenState

private def indicator (state : TokenState) (token : Token) (keyAllowed : Bool) : TokenState :=
  { state.push token with keyAllowed }

private def openFlow? (state : TokenState) (here : Placed) (token : Token) : Option TokenState := do
  let state ← state.noteKey? here
  return ({ state with keys := none :: state.keys }).indicator token true

private def closeFlow? (state : TokenState) (token : Token) : Option TokenState := do
  let state ← state.dropKey?
  let keys := if state.inFlow then state.keys.tail else state.keys
  return ({ state with keys }).indicator token false

private def entry? (state : TokenState) (column : Nat) (token start : Token) (keyAllowed : Bool) :
    Option TokenState := do
  if !state.inFlow && !state.keyAllowed then none
  let state := state.openBlock column state.tokens.size start
  let state ← state.dropKey?
  return state.indicator token keyAllowed

private def value? (state : TokenState) (column : Nat) : Option TokenState :=
  match state.keys with
  | some key :: others =>
      let state := { state with
        tokens := state.tokens.insertIdxIfInBounds key.position .key
        keys := none :: others }
      let state := state.openBlock key.column key.position .blockMappingStart
      some (state.indicator .value false)
  | _ =>
      if !state.inFlow && !state.keyAllowed then none
      else
        let state := state.openBlock column state.tokens.size .blockMappingStart
        some (state.indicator .value (!state.inFlow))

private def scalar? (state : TokenState) (here : Placed) (style : ScalarStyle)
    (scalarEnd : Option ScalarEnd) : Option (TokenState × Source) := do
  let state ← state.noteKey? here
  let ended ← scalarEnd
  return (state.indicator (.scalar ended.text style) ended.crossed, ended.rest)

private def startsPlain (state : TokenState) (c : Char) (rest : Source) : Bool :=
  !"-?:,[]\x7b\x7d#&*!|>'\"%@\x60".contains c && !isSpace c ||
    (c = '-' && !rest.startsWith isSpace) ||
    (!state.inFlow && (c = '?' || c = ':') && !rest.atGap)

def step? (state : TokenState) (here : Placed) (rest : Source) : Option (TokenState × Source) := do
  let source := here :: rest
  let state ← state.dropStaleKeys? here.line here.index
  let state := state.closeBlocks here.column
  let c := here.char
  let column := here.column
  let marker (token : Token) : Option (TokenState × Source) := do
    let state ← (state.closeBlocks (-1)).dropKey?
    return (state.indicator token false, rest.drop 2)
  if column = 0 ∧ c = '%' then
    let state ← (state.closeBlocks (-1)).dropKey?
    let (directive, rest) ← Directive.read? rest
    return (state.indicator (.directive directive) false, rest)
  else if Source.atMarker source '-' then marker .documentStart
  else if Source.atMarker source '.' then marker .documentEnd
  else if c = '[' then return (← state.openFlow? here .flowSequenceStart, rest)
  else if c = '\x7b' then return (← state.openFlow? here .flowMappingStart, rest)
  else if c = ']' then return (← state.closeFlow? .flowSequenceEnd, rest)
  else if c = '\x7d' then return (← state.closeFlow? .flowMappingEnd, rest)
  else if c = ',' then
    let state ← state.dropKey?
    return (state.indicator .flowEntry true, rest)
  else if c = '-' && rest.atGap then
    return (← state.entry? column .blockEntry .blockSequenceStart true, rest)
  else if c = '?' && (state.inFlow || rest.atGap) then
    return (← state.entry? column .key .blockMappingStart (!state.inFlow), rest)
  else if c = ':' && (state.inFlow || rest.atGap) then return (← state.value? column, rest)
  else if c = '*' ∨ c = '&' then
    let state ← state.noteKey? here
    let (name, rest) ← anchorName? rest
    return (state.indicator (if c = '*' then .alias name else .anchor name) false, rest)
  else if c = '!' then
    let state ← state.noteKey? here
    let (tag, rest) ← Tag.read? rest
    if rest.atGap || (state.inFlow && rest.startsWith (· = ',')) then
      return (state.indicator (.tag tag) false, rest)
    else none
  else if (c = '|' ∨ c = '>') ∧ !state.inFlow then
    let state ← state.dropKey?
    let ended ← blockScalar (c = '|') state.indent rest
    let style := if c = '|' then ScalarStyle.literal else .folded
    return (state.indicator (.scalar ended.text style) true, ended.rest)
  else if c = '\'' then state.scalar? here .quoted (singleQuoted [] {} rest)
  else if c = '"' then state.scalar? here .quoted (doubleQuoted [] {} rest)
  else if state.startsPlain c rest then
    state.scalar? here .plain (plainScalar state.inFlow (state.indent + 1) [] {} source)
  else none

def finish? (state : TokenState) (source : Source) : Option (List Token) :=
  let (found, crossed) := skipGaps state.inFlow state.keyAllowed false source
  let state := if crossed && !state.inFlow then { state with keyAllowed := true } else state
  match found with
  | [] =>
      if state.keys.any fun key => key.any (·.isRequired) then none
      else some (state.closeBlocks (-1)).tokens.toList
  | here :: rest =>
      match state.step? here rest with
      | none => none
      | some (next, behind) =>
          if behind.length < source.length then next.finish? behind else none
  termination_by source.length

end TokenState

def tokens? (text : Text) : Option (List Token) := do
  let source ← Source.ofText? text
  ({} : TokenState).finish? source

end NameMigration.Yaml
