/-!
# Short code words for frequent symbols

An encoder chooses the lengths of its code words by how often it uses the symbols: it joins the two
lightest groups of symbols to one, whose words all grow by a bit, until a single group is left. The
groups wait in a heap, in which no group is lighter than the one above it.

## Main definitions

* `SymbolGroup` — some symbols, and how often they are used together
* `SymbolGroup.push`, `SymbolGroup.pop?` — the operations of the heap
* `codeLengths` — the lengths of the words for symbols of given weights
-/

namespace Folio.Bzip2

/-- A group of symbols. -/
structure SymbolGroup where
  /-- How often the symbols are used. -/
  weight : Nat
  /-- How often groups have been joined on the way from a symbol to this group, at most. -/
  depth : Nat
  symbols : List Nat
deriving Repr, Inhabited

namespace SymbolGroup

/-- Whether a group is lighter than another one, or as light and less deep. -/
def lighter (a b : SymbolGroup) : Bool :=
  a.weight < b.weight || (a.weight == b.weight && a.depth < b.depth)

/-- Two groups as one. -/
def join (a b : SymbolGroup) : SymbolGroup :=
  ⟨a.weight + b.weight, max a.depth b.depth + 1, a.symbols ++ b.symbols⟩

/-- Puts a group into a heap at place `i` or above it, where all groups that are heavier move
down. -/
def siftUp (g : SymbolGroup) (heap : Array SymbolGroup) (i : Nat) : Array SymbolGroup :=
  if i = 0 then heap.setIfInBounds i g
  else
    let above := heap.getD ((i - 1) / 2) default
    if g.lighter above then siftUp g (heap.setIfInBounds i above) ((i - 1) / 2)
    else heap.setIfInBounds i g
termination_by i
decreasing_by omega

/-- Puts a group into a heap at place `i` or below it, where all groups that are no heavier move up.
`fuel` bounds the number of steps. -/
def siftDown (g : SymbolGroup) : (fuel : Nat) → (heap : Array SymbolGroup) → (i : Nat) →
    Array SymbolGroup
  | 0, heap, i => heap.setIfInBounds i g
  | fuel + 1, heap, i =>
    let left := heap.getD (2 * i + 1) default
    let right := heap.getD (2 * i + 2) default
    let (below, place) :=
      if 2 * i + 2 < heap.size && right.lighter left then (right, 2 * i + 2)
      else (left, 2 * i + 1)
    if place < heap.size && !g.lighter below then
      siftDown g fuel (heap.setIfInBounds i below) place
    else heap.setIfInBounds i g

/-- Adds a group to a heap. -/
def push (heap : Array SymbolGroup) (g : SymbolGroup) : Array SymbolGroup :=
  g.siftUp (heap.push g) heap.size

/-- The group at the top of a heap, and the heap without it. -/
def pop? (heap : Array SymbolGroup) : Option (SymbolGroup × Array SymbolGroup) :=
  heap[0]?.map fun top =>
    let rest := heap.pop
    (top, (heap.back?.getD top).siftDown rest.size rest 0)

/-- Joins the two groups at the top of a heap until a single one is left. Every join makes the words
of the symbols in it one bit longer. `fuel` bounds the number of joins. -/
def joinAll : (fuel : Nat) → (heap : Array SymbolGroup) → (lengths : Array Nat) → Array Nat
  | 0, _, lengths => lengths
  | fuel + 1, heap, lengths =>
    match pop? heap with
    | none => lengths
    | some (a, heap) =>
      match pop? heap with
      | none => lengths
      | some (b, heap) =>
        let g := a.join b
        joinAll fuel (push heap g)
          (g.symbols.foldl (fun lengths symbol => lengths.modify symbol (· + 1)) lengths)

end SymbolGroup

/-- The lengths of the words without regard to a limit. -/
def freeCodeLengths (weights : List Nat) : List Nat :=
  let heap := weights.zipIdx.foldl
    (fun heap (weight, symbol) => SymbolGroup.push heap ⟨weight, 0, [symbol]⟩) #[]
  (SymbolGroup.joinAll weights.length heap (Array.replicate weights.length 0)).toList

/-- The lengths of the words for symbols of the given weights. Until no word is longer than `limit`,
the weights are made more alike, `fuel` times at most. -/
def codeLengths (limit : Nat) : (fuel : Nat) → (weights : List Nat) → List Nat
  | 0, weights => freeCodeLengths weights
  | fuel + 1, weights =>
    let lengths := freeCodeLengths weights
    if lengths.all (· ≤ limit) then lengths
    else codeLengths limit fuel (weights.map fun weight => weight / 2 + 1)

end Folio.Bzip2
