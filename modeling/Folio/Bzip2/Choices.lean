import Folio.Bzip2.Block
import Folio.Bzip2.CodeLengths

/-!
# Choosing the codes of a block

A block has two to six codes, and every fifty symbols it says which of them is next. An encoder
starts with codes that each favour a range of symbols, lets each group of symbols choose the code in
which it is shortest, and makes the codes anew for the groups that have chosen them. This is done
four times.

## Main definitions

* `codeCount` — the number of codes for a number of symbols
* `ranges` — ranges of symbols that are used about as often
* `cheapest` — the code in which a group is shortest
* `chooseCodes` — the codes, and the choices of the groups
-/

namespace Folio.Bzip2

/-- The number of codes for a number of symbols. -/
def codeCount (symbols : Nat) : Nat :=
  if symbols < 200 then 2
  else if symbols < 600 then 3
  else if symbols < 1200 then 4
  else if symbols < 2400 then 5
  else 6

/-- Where a range ends that reaches so far from `stop` on that its symbols, with `used` uses so far,
are used `share` times, and how often they are. `fuel` bounds the number of symbols. -/
def rangeEnd (weights : Array Nat) (share : Nat) : (fuel stop used : Nat) → Nat × Nat
  | 0, stop, used => (stop, used)
  | fuel + 1, stop, used =>
    if used < share && stop < weights.size then
      rangeEnd weights share fuel (stop + 1) (used + weights.getD stop 0)
    else (stop, used)

/-- The last `parts` of `count` ranges of symbols, from `start` on, where `left` uses are left for
them. Every second range but the last one leaves the symbol with which it reaches its share to the
next one. -/
def rangesFrom (weights : Array Nat) (count : Nat) : (parts start left : Nat) → List (Nat × Nat)
  | 0, _, _ => []
  | parts + 1, start, left =>
    let (stop, used) := rangeEnd weights (left / (parts + 1)) weights.size start 0
    let (stop, used) :=
      if start + 1 < stop && parts ≠ 0 && (count - parts) % 2 = 0 then
        (stop - 1, used - weights.getD (stop - 1) 0)
      else (stop, used)
    (start, stop) :: rangesFrom weights count parts stop (left - used)

/-- Ranges of symbols that are used about as often. -/
def ranges (weights : Array Nat) (count : Nat) : List (Nat × Nat) :=
  rangesFrom weights count count 0 (weights.foldl (· + ·) 0)

/-- The number of bits that stands for words that are not wanted. -/
def unwanted : Nat := 15

/-- Lengths of words with which a code favours a range of symbols. -/
def favour (size : Nat) (range : Nat × Nat) : List Nat :=
  (List.range size).map fun symbol =>
    if range.1 ≤ symbol && symbol < range.2 then 0 else unwanted

/-- The number of bits of a group of symbols in a code. -/
def cost (lengths : Array Nat) (group : List Nat) : Nat :=
  group.foldl (fun bits symbol => bits + lengths.getD symbol 0) 0

/-- The code in which a group is shortest, and the first of them. -/
def cheapest (codes : List (Array Nat)) (group : List Nat) : Nat :=
  let costs := codes.map fun code => cost code group
  costs.idxOf (costs.min?.getD 0)

/-- How often the groups that have chosen a code use the symbols. -/
def usesOf (size code : Nat) (groups : List (List Nat)) (choices : List Nat) : Array Nat :=
  (groups.zip choices).foldl (fun uses (group, choice) =>
    if choice = code then
      group.foldl (fun uses symbol => uses.modify symbol (· + 1)) uses
    else uses) (Array.replicate size 0)

/-- The longest code words that the encoder uses. -/
def maxEncodedWord : Nat := 17

/-- Lets the groups choose codes and makes the codes anew, `rounds` times. -/
def refine (size : Nat) (groups : List (List Nat)) :
    (rounds : Nat) → (codes : List (List Nat)) → (choices : List Nat) →
      List (List Nat) × List Nat
  | 0, codes, choices => (codes, choices)
  | rounds + 1, codes, _ =>
    let choices := groups.map (cheapest (codes.map List.toArray))
    let codes := (List.range codes.length).map fun code =>
      codeLengths maxEncodedWord 32 ((usesOf size code groups choices).toList.map (max 1))
    refine size groups rounds codes choices

/-- Symbols in groups. `fuel` bounds their number. -/
def groupsFrom : (fuel : Nat) → (symbols : List Nat) → List (List Nat)
  | 0, _ => []
  | _ + 1, [] => []
  | fuel + 1, symbols => symbols.take groupSize :: groupsFrom fuel (symbols.drop groupSize)

/-- The groups of the symbols of a block. -/
def groupsOf (symbols : List Nat) : List (List Nat) := groupsFrom symbols.length symbols

/-- The number of rounds in which codes are chosen. -/
def refinements : Nat := 4

/-- The lengths of the words of all codes for symbols below `size`, and the choices of the
groups. -/
def chooseCodes (size : Nat) (symbols : List Nat) : List (List Nat) × List Nat :=
  let weights := symbols.foldl (fun weights symbol => weights.modify symbol (· + 1))
    (Array.replicate size 0)
  let first := ((ranges weights (codeCount symbols.length)).map (favour size)).reverse
  refine size (groupsOf symbols) refinements first []

end Folio.Bzip2
