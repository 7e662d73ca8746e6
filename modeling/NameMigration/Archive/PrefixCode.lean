/-!
Canonical prefix codes. A code is given by the length of the codeword of every symbol, zero for a
symbol that has none. Codewords of one length follow each other in the order of their symbols, and
those of a greater length follow behind.
-/

namespace NameMigration.Archive

structure PrefixCode where
  counts : List Nat
  symbols : Array Nat
  deriving DecidableEq, Repr

namespace PrefixCode

def lengths : List Nat :=
  List.range' 1 15

def covered (counts : List Nat) : Nat :=
  (counts.zip lengths).foldl (fun sum (count, length) => sum + count <<< (15 - length)) 0

/-- The code with the given codeword lengths. Unless there is at most one codeword, every word
must begin with exactly one. -/
def ofLengths? (symbolLengths : List Nat) : Option PrefixCode :=
  let withLength := fun length =>
    symbolLengths.zipIdx.filterMap fun (other, symbol) =>
      if other = length then some symbol else none
  let groups := lengths.map withLength
  let counts := groups.map List.length
  let symbols := groups.flatten
  if covered counts = 1 <<< 15 ∨ symbols.length ≤ 1 then some ⟨counts, symbols.toArray⟩ else none

inductive Reading where
  | symbol (symbol : Nat) (rest : List Bool)
  | unfinished
  | unassigned
  deriving DecidableEq, Repr

/-- Reads a codeword, bit by bit: `word` has been read, `first` is the first codeword of this length
and `index` the place of its symbol. -/
def readFrom (symbols : Array Nat) : (counts : List Nat) → (word first index : Nat) → List Bool →
    Reading
  | [], _, _, _, _ => .unassigned
  | _ :: _, _, _, _, [] => .unfinished
  | count :: counts, word, first, index, bit :: rest =>
      let word := 2 * word + bit.toNat
      if word < first + count then
        match symbols[index + (word - first)]? with
        | some symbol => .symbol symbol rest
        | none => .unassigned
      else readFrom symbols counts word (2 * (first + count)) (index + count) rest

def read (code : PrefixCode) (bits : List Bool) : Reading :=
  readFrom code.symbols code.counts 0 0 0 bits

end PrefixCode

end NameMigration.Archive
