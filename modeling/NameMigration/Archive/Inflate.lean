import NameMigration.Archive.PrefixCode
import NameMigration.Text.Utf8

/-!
Unpacking of deflated content. The bits of the packed content, lowest first, are blocks; a block holds
bytes as they are, or symbols of two prefix codes that stand for bytes and for copies of what has
been unpacked before.
-/

namespace NameMigration.Archive

namespace Inflate

inductive Stop where
  | truncated
  | corrupt
  deriving DecidableEq, Repr

structure State where
  bits : List Bool
  unpacked : Array UInt8

abbrev Step (Outcome : Type) := EStateM Stop State Outcome

def bitsOfByte (byte : UInt8) : List Bool :=
  (List.range 8).map byte.toNat.testBit

def takeBit : Step Nat := do
  let state ← get
  match state.bits with
  | [] => throw .truncated
  | bit :: rest =>
      set { state with bits := rest }
      return bit.toNat

def takeNumber : (count : Nat) → Step Nat
  | 0 => return 0
  | count + 1 => do
      let low ← takeBit
      return low + 2 * (← takeNumber count)

def takeSymbol (code : PrefixCode) : Step Nat := do
  let state ← get
  match code.read state.bits with
  | .symbol symbol rest =>
      set { state with bits := rest }
      return symbol
  | .unfinished => throw .truncated
  | .unassigned => throw .corrupt

def put (byte : UInt8) : Step Unit :=
  modify fun state => { state with unpacked := state.unpacked.push byte }

/-- Repeats the bytes from `distance` before the end, one by one, so that a copy may run into itself.
Before the start there are zeros. -/
def copyBack (distance : Nat) : (count : Nat) → Step Unit
  | 0 => return
  | count + 1 => do
      let unpacked := (← get).unpacked
      let byte := if distance ≤ unpacked.size then unpacked.getD (unpacked.size - distance) 0 else 0
      put byte
      copyBack distance count

def copyCounts : List (Nat × Nat) :=
  [(3, 0), (4, 0), (5, 0), (6, 0), (7, 0), (8, 0), (9, 0), (10, 0), (11, 1), (13, 1), (15, 1),
    (17, 1), (19, 2), (23, 2), (27, 2), (31, 2), (35, 3), (43, 3), (51, 3), (59, 3), (67, 4),
    (83, 4), (99, 4), (115, 4), (131, 5), (163, 5), (195, 5), (227, 5), (258, 0)]

def copyDistances : List (Nat × Nat) :=
  [(1, 0), (2, 0), (3, 0), (4, 0), (5, 1), (7, 1), (9, 2), (13, 2), (17, 3), (25, 3), (33, 4),
    (49, 4), (65, 5), (97, 5), (129, 6), (193, 6), (257, 7), (385, 7), (513, 8), (769, 8),
    (1025, 9), (1537, 9), (2049, 10), (3073, 10), (4097, 11), (6145, 11), (8193, 12), (12289, 12),
    (16385, 13), (24577, 13)]

def takeExtended (table : List (Nat × Nat)) (symbol : Nat) : Step Nat := do
  match table[symbol]? with
  | none => throw .corrupt
  | some (base, extra) => return base + (← takeNumber extra)

/-- The symbols of a block up to its end. Each takes at least one bit, so `limit` need not be more
than there are bits. -/
def takeSymbols (content distances : PrefixCode) : (limit : Nat) → Step Unit
  | 0 => throw .truncated
  | limit + 1 => do
      let symbol ← takeSymbol content
      if symbol < 256 then
        put symbol.toUInt8
        takeSymbols content distances limit
      else if symbol = 256 then return
      else
        let count ← takeExtended copyCounts (symbol - 257)
        let distance ← takeExtended copyDistances (← takeSymbol distances)
        copyBack distance count
        takeSymbols content distances limit

def takeBytes : (count : Nat) → Step Unit
  | 0 => return
  | count + 1 => do
      put (← takeNumber 8).toUInt8
      takeBytes count

def takeStored : Step Unit := do
  modify fun state => { state with bits := state.bits.drop (state.bits.length % 8) }
  let count ← takeNumber 16
  let complement ← takeNumber 16
  if count + complement = 0xffff then takeBytes count else throw .corrupt

def fixedContent : List Nat :=
  List.replicate 144 8 ++ List.replicate 112 9 ++ List.replicate 24 7 ++ List.replicate 8 8

def fixedDistances : List Nat :=
  List.replicate 32 5

def lengthOrder : List Nat :=
  [16, 17, 18, 0, 8, 7, 9, 6, 10, 5, 11, 4, 12, 3, 13, 2, 14, 1, 15]

def codeOf (lengths : List Nat) : Step PrefixCode :=
  match PrefixCode.ofLengths? lengths with
  | some code => return code
  | none => throw .corrupt

/-- Codeword lengths up to the given number, behind those that are known, last one first. Each
symbol gives at least one, so `limit` need not be more than that number. -/
def takeLengths (code : PrefixCode) (total : Nat) : (limit : Nat) → (known : List Nat) →
    Step (List Nat)
  | 0, _ => throw .corrupt
  | limit + 1, known => do
      if known.length = total then return known.reverse
      else if total < known.length then throw .corrupt
      else
        match ← takeSymbol code with
        | 16 =>
            let count := 3 + (← takeNumber 2)
            match known with
            | [] => throw .corrupt
            | last :: _ => takeLengths code total limit (List.replicate count last ++ known)
        | 17 =>
            let count := 3 + (← takeNumber 3)
            takeLengths code total limit (List.replicate count 0 ++ known)
        | 18 =>
            let count := 11 + (← takeNumber 7)
            takeLengths code total limit (List.replicate count 0 ++ known)
        | length => takeLengths code total limit (length :: known)

def takeCodes : Step (PrefixCode × PrefixCode) := do
  let contentSize := 257 + (← takeNumber 5)
  let distanceSize := 1 + (← takeNumber 5)
  let given := 4 + (← takeNumber 4)
  if 286 < contentSize ∨ 30 < distanceSize then throw .corrupt
  let lengths ← (List.replicate given ()).mapM fun _ => takeNumber 3
  let ordered := (List.range 19).map fun symbol =>
    (lengths[lengthOrder.idxOf symbol]?).getD 0
  let code ← codeOf ordered
  let both ← takeLengths code (contentSize + distanceSize) (contentSize + distanceSize + 1) []
  return (← codeOf (both.take contentSize), ← codeOf (both.drop contentSize))

def takeBlock (limit : Nat) : Step Unit := do
  match ← takeNumber 2 with
  | 0 => takeStored
  | 1 => takeSymbols (← codeOf fixedContent) (← codeOf fixedDistances) limit
  | 2 =>
      let (content, distances) ← takeCodes
      takeSymbols content distances limit
  | _ => throw .corrupt

def takeBlocks (size : Nat) : (limit : Nat) → Step Unit
  | 0 => throw .truncated
  | limit + 1 => do
      let isLast := (← takeBit) = 1
      takeBlock size
      if isLast then return else takeBlocks size limit

end Inflate

/-- Unpacks deflated content: what could be unpacked, and why it is not all. What is corrupt is only
unpacked in whole windows of 32 KiB with something behind them. -/
def inflate (packed : Bytes) : Bytes × Option Inflate.Stop :=
  let bits := packed.flatMap Inflate.bitsOfByte
  match Inflate.takeBlocks bits.length bits.length ⟨bits, #[]⟩ with
  | .ok _ state => (state.unpacked.toList, none)
  | .error .truncated state => (state.unpacked.toList, some .truncated)
  | .error .corrupt state =>
      let unpacked := state.unpacked.toList
      (unpacked.take ((unpacked.length - 1) / 32768 * 32768), some .corrupt)

end NameMigration.Archive
