import Folio.Stream.Bits

/-!
# Canonical prefix codes

A canonical code is given by the lengths of its code words alone: the words of one length are
consecutive numbers in the order of their symbols, and follow those of the shorter lengths.

## Main definitions

* `PrefixCode` — the symbols by the length of their words
* `PrefixCode.ofLengths` — the code with given lengths
* `PrefixCode.read?` — reads a symbol, if the bits begin with a code word
* `PrefixCode.words` — the code word of every symbol
-/

namespace Folio

/-- A canonical prefix code: the symbols with words of one bit, of two bits, and so on. -/
structure PrefixCode where
  /-- The symbols with words of one bit, of two bits, and so on. -/
  levels : List (Array Nat)
deriving Repr, Inhabited

namespace PrefixCode

/-- The symbols whose words have the given length, in ascending order. A symbol is the place of
its length in the list. -/
def symbolsOfLength (lengths : List Nat) (length : Nat) : Array Nat :=
  (lengths.zipIdx.filterMap fun (l, symbol) => if l = length then some symbol else none).toArray

/-- The code whose words have the given lengths, for lengths up to `maxLength`. Symbols of length
zero have no word. -/
def ofLengths (maxLength : Nat) (lengths : List Nat) : PrefixCode :=
  ⟨(List.range maxLength).map fun k => symbolsOfLength lengths (k + 1)⟩

variable {order : BitOrder}

/-- Reads a symbol from the given levels on. `offset` is how far the bits that have been read are
past the first word of their length that no shorter word begins. -/
def readFrom : List (Array Nat) → (offset : Nat) → BitReader order (Option Nat)
  | [], _ => pure none
  | symbols :: longer, offset => do
    let b ← BitReader.bit
    let place := 2 * offset + b.toNat
    if h : place < symbols.size then return some symbols[place]
    else readFrom longer (place - symbols.size)

/-- Reads a symbol, or reads as many bits as the longest words have if none of them is a word. -/
def read? (code : PrefixCode) : BitReader order (Option Nat) := readFrom code.levels 0

/-- The words of the symbols of the given levels, where the first level has words of `length` bits
and `first` is the first of them. -/
def wordsFrom : List (Array Nat) → (length first : Nat) → List (Nat × List Bool)
  | [], _, _ => []
  | symbols :: longer, length, first =>
    symbols.toList.zipIdx.map (fun (symbol, i) => (symbol, highBits length (first + i)))
      ++ wordsFrom longer (length + 1) (2 * (first + symbols.size))

/-- The code word of every symbol, in the order of the words. -/
def words (code : PrefixCode) : List (Nat × List Bool) := wordsFrom code.levels 1 0

/-- The code words by symbol, for symbols below `size`. -/
def table (code : PrefixCode) (size : Nat) : Array (List Bool) :=
  code.words.foldl (fun table (symbol, word) => table.setIfInBounds symbol word)
    (Array.replicate size [])

end PrefixCode

end Folio
