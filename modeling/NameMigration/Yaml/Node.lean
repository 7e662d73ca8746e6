import NameMigration.Yaml.Token

/-!
The value of a YAML text as a tree. A text holds one document at most. Nothing is answered for a
malformed text.

An alias stands for a node by number. The names of anchors are numbered as they are met, by how many
other names there are; a name that is met again gets a new number. So two anchors can have one
number, and then an alias of it stands for the last of their nodes, wherever it is.
-/

namespace NameMigration.Yaml

inductive Node where
  | scalar (text : Text) (style : ScalarStyle) (tag : Option Bytes)
  | sequence (items : List Node)
  | mapping (entries : List (Node × Node))
  | alias (number : Nat)
  deriving Repr, Inhabited

mutual

def Node.eventCount : Node → Nat
  | .scalar _ _ _ => 1
  | .alias _ => 1
  | .sequence items => 2 + itemEventCount items
  | .mapping entries => 2 + entryEventCount entries

def itemEventCount : List Node → Nat
  | [] => 0
  | item :: items => item.eventCount + itemEventCount items

def entryEventCount : List (Node × Node) → Nat
  | [] => 0
  | (key, value) :: entries => key.eventCount + value.eventCount + entryEventCount entries

end

def Node.absent : Node :=
  .scalar [] .plain none

structure Document where
  root : Node
  anchored : List (Nat × Node)
  deriving Repr

def Document.find? (document : Document) (number : Nat) : Option Node :=
  document.anchored.reverse.lookup number

def handlesByDefault : List (Text × Bytes) :=
  [(['!'], Text.utf8 ['!']), (['!', '!'], Text.utf8 "tag:yaml.org,2002:".toList), ([], [])]

structure NodeState where
  tokens : List Token
  numbers : List (Text × Nat) := []
  anchored : Array (Nat × Node) := #[]
  handles : List (Text × Bytes) := handlesByDefault
  deriving Inhabited

abbrev NodeReader := StateT NodeState Option

namespace NodeReader

def peek : NodeReader (Option Token) := do
  return (← get).tokens.head?

def skip : NodeReader Unit :=
  modify fun state => { state with tokens := state.tokens.tail }

def take (token : Token) : NodeReader Bool := do
  if (← peek) = some token then
    skip
    return true
  else return false

def stopsAt (tokens : List Token) : NodeReader Bool := do
  match ← peek with
  | some token => return tokens.contains token
  | none => return true

def properties : NodeReader (Option Text × Option Bytes) := do
  let anchor : NodeReader (Option Text) := do
    match ← peek with
    | some (.anchor name) => skip; return some name
    | _ => return none
  let tag : NodeReader (Option Bytes) := do
    match ← peek with
    | some (.tag tag) =>
        skip
        match (← get).handles.lookup tag.handle with
        | some octets => return some (octets ++ tag.suffix)
        | none => failure
    | _ => return none
  let before ← anchor
  let tagged ← tag
  match before with
  | some name => return (some name, tagged)
  | none => return (← anchor, tagged)

def aliased (name : Text) : NodeReader Node := do
  match (← get).numbers.lookup name with
  | some number => return .alias number
  | none => failure

def anchoring (anchor : Option Text) (node : NodeReader Node) : NodeReader Node := do
  match anchor with
  | none => node
  | some name =>
      let state ← get
      let number := state.numbers.length
      let place := state.anchored.size
      set { state with
        numbers := (name, number) :: state.numbers.filter (·.1 ≠ name)
        anchored := state.anchored.push (number, .absent) }
      let result ← node
      modify fun state =>
        { state with anchored := state.anchored.setIfInBounds place (number, result) }
      return result

/-- The context in which a node stands: in brackets, in a block, or in a block where a sequence may
have the indentation of its parent. -/
inductive Place where
  | flow
  | block
  | mappingBlock
  deriving DecidableEq

mutual

def node (fuel : Nat) (place : Place) : NodeReader Node :=
  match fuel with
  | 0 => failure
  | fuel + 1 => do
      if let some (.alias name) ← peek then
        skip
        return ← aliased name
      let (anchor, tag) ← properties
      anchoring anchor (content fuel place tag (anchor.isSome || tag.isSome))

/-- A node behind its properties. It is absent only if it has some. -/
def content (fuel : Nat) (place : Place) (tag : Option Bytes) (hasProperties : Bool) :
    NodeReader Node :=
  match fuel with
  | 0 => failure
  | fuel + 1 => do
      let orAbsent : NodeReader Node :=
        if hasProperties then pure (.scalar [] .plain tag) else failure
      match ← peek with
      | some .blockEntry =>
          if place = .mappingBlock then .sequence <$> plainEntries fuel else orAbsent
      | some (.scalar text style) =>
          skip
          return .scalar text style (tag.filter (· ≠ Text.utf8 ['!']))
      | some .flowSequenceStart =>
          skip
          .sequence <$> flowEntries fuel true
      | some .flowMappingStart =>
          skip
          .mapping <$> flowPairs fuel true
      | some .blockSequenceStart =>
          if place = .flow then orAbsent
          else
            skip
            .sequence <$> blockEntries fuel
      | some .blockMappingStart =>
          if place = .flow then orAbsent
          else
            skip
            .mapping <$> blockPairs fuel
      | _ => orAbsent

def nodeUnless (fuel : Nat) (place : Place) (tokens : List Token) : NodeReader Node :=
  match fuel with
  | 0 => failure
  | fuel + 1 => do
      if ← stopsAt tokens then return .absent else node fuel place

def blockEntries (fuel : Nat) : NodeReader (List Node) :=
  match fuel with
  | 0 => failure
  | fuel + 1 => do
      if ← take .blockEntry then
        let item ← nodeUnless fuel .block [.blockEntry, .blockEnd]
        return item :: (← blockEntries fuel)
      else if ← take .blockEnd then return []
      else failure

/-- The entries of a block sequence that is indented like the mapping it stands in. -/
def plainEntries (fuel : Nat) : NodeReader (List Node) :=
  match fuel with
  | 0 => failure
  | fuel + 1 => do
      if ← take .blockEntry then
        let item ← nodeUnless fuel .block [.blockEntry, .key, .value, .blockEnd]
        return item :: (← plainEntries fuel)
      else return []

def blockPairs (fuel : Nat) : NodeReader (List (Node × Node)) :=
  match fuel with
  | 0 => failure
  | fuel + 1 => do
      if ← take .key then
        let key ← nodeUnless fuel .mappingBlock [.key, .value, .blockEnd]
        let value ← if ← take .value then nodeUnless fuel .mappingBlock [.key, .value, .blockEnd]
          else pure .absent
        return (key, value) :: (← blockPairs fuel)
      else if ← take .blockEnd then return []
      else failure

def flowEntries (fuel : Nat) (isFirst : Bool) : NodeReader (List Node) :=
  match fuel with
  | 0 => failure
  | fuel + 1 => do
      if ← take .flowSequenceEnd then return []
      if !isFirst then
        if !(← take .flowEntry) then failure
      if ← take .flowSequenceEnd then return []
      let item ← if ← take .key then do
          let key ← if ← stopsAt [.value, .flowEntry, .flowSequenceEnd] then do
              skip
              pure .absent
            else node fuel .flow
          let value ← if ← take .value then nodeUnless fuel .flow [.flowEntry, .flowSequenceEnd]
            else pure .absent
          pure (.mapping [(key, value)])
        else node fuel .flow
      return item :: (← flowEntries fuel false)

def flowPairs (fuel : Nat) (isFirst : Bool) : NodeReader (List (Node × Node)) :=
  match fuel with
  | 0 => failure
  | fuel + 1 => do
      if ← take .flowMappingEnd then return []
      if !isFirst then
        if !(← take .flowEntry) then failure
      if ← take .flowMappingEnd then return []
      let pair ← if ← take .key then do
          let key ← nodeUnless fuel .flow [.value, .flowEntry, .flowMappingEnd]
          let value ← if ← take .value then nodeUnless fuel .flow [.flowEntry, .flowMappingEnd]
            else pure .absent
          pure (key, value)
        else do
          let key ← node fuel .flow
          pure (key, .absent)
      return pair :: (← flowPairs fuel false)

end

def directives : Nat → NodeReader (List Directive)
  | 0 => failure
  | fuel + 1 => do
      match ← peek with
      | some (.directive directive) =>
          skip
          return directive :: (← directives fuel)
      | _ => return []

def dropDocumentEnds : Nat → NodeReader Unit
  | 0 => return ()
  | fuel + 1 => do
      if ← take .documentEnd then dropDocumentEnds fuel

def document (fuel : Nat) : NodeReader Node := do
  if (← peek).isNone then return .absent
  let given ← directives fuel
  if !Directive.areDistinct given then failure
  modify fun state => { state with handles := given.filterMap Directive.meaning? ++ state.handles }
  let isMarked ← take .documentStart
  let result ←
    if isMarked then nodeUnless fuel .block [.documentStart, .documentEnd]
    else if given ≠ [] then failure
    else node fuel .block
  dropDocumentEnds fuel
  if (← peek).isSome then failure
  return result

end NodeReader

def Document.ofText? (text : Text) : Option Document := do
  let tokens ← tokens? text
  let (root, state) ← (NodeReader.document (5 * tokens.length + 5)).run { tokens }
  return { root, anchored := state.anchored.toList }

end NameMigration.Yaml
