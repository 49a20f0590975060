/-!
# Short code words for frequent symbols

An encoder chooses the lengths of its code words by how often it uses the symbols: it joins the two
lightest trees of words until a single one is left. The symbols wait in one queue and the trees that
have been joined in another one, so that the lightest tree is at the front of one of them.

## Main definitions

* `WordTree` — words, and how often they are used together
* `wordLengths` — the lengths of words for symbols in ascending order of weight
* `limitLengths` — lengths up to a limit
* `codeLengths` — the lengths of the words for symbols of given weights
-/

namespace Folio.Deflate

/-- A tree of words. -/
structure WordTree where
  /-- How often the words are used. -/
  weight : Nat
  /-- The lengths of the words. -/
  lengths : List Nat
deriving Repr

namespace WordTree

/-- Two trees as one, in which every word is one bit longer. -/
def join (a b : WordTree) : WordTree :=
  ⟨a.weight + b.weight, (a.lengths ++ b.lengths).map (· + 1)⟩

/-- The lighter of the trees at the fronts of two queues, with what is left of the queues. Of trees
that weigh the same it is the one of the first queue. -/
def takeLighter? : (single joined : List WordTree) →
    Option (WordTree × List WordTree × List WordTree)
  | [], [] => none
  | a :: single, [] => some (a, single, [])
  | [], b :: joined => some (b, [], joined)
  | a :: single, b :: joined =>
    if b.weight < a.weight then some (b, a :: single, joined) else some (a, single, b :: joined)

/-- Joins the two lightest trees of two queues until a single one is left, and gives the lengths of
its words. `fuel` bounds the number of joins. -/
def joinAll : (fuel : Nat) → (single joined : List WordTree) → List Nat
  | 0, _, _ => []
  | fuel + 1, single, joined =>
    match takeLighter? single joined with
    | none => []
    | some (a, single, joined) =>
      match takeLighter? single joined with
      | none => a.lengths
      | some (b, single, joined) => joinAll fuel single (joined ++ [a.join b])

end WordTree

/-- The lengths of words for symbols of the given weights, which ascend. A single symbol has a word
of one bit. -/
def wordLengths (weights : List Nat) : List Nat :=
  match weights with
  | [_] => [1]
  | _ => WordTree.joinAll weights.length (weights.map fun weight => ⟨weight, [0]⟩) []

/-- Makes room for one of the longest words, of `limit` bits: it takes the place of the longest of
the other words, which grows by a bit to stand beside it. -/
def lengthenOne (limit : Nat) (counts : Array Nat) : Array Nat :=
  match (List.range limit).reverse.find? fun length => counts.getD length 0 ≠ 0 with
  | none => counts
  | some length =>
    ((counts.modify limit (· - 1)).modify length (· - 1)).modify (length + 1) (· + 2)

/-- Does so a number of times. -/
def lengthenMany (limit : Nat) : (times : Nat) → (counts : Array Nat) → Array Nat
  | 0, counts => counts
  | times + 1, counts => lengthenMany limit times (lengthenOne limit counts)

/-- Lengths of words up to a limit, in ascending order. Longer words are cut to the limit, and
shorter ones grow until there are bits enough to tell all words apart. -/
def limitLengths (limit : Nat) (lengths : List Nat) : List Nat :=
  let counts := lengths.foldl (fun counts length => counts.modify (min length limit) (· + 1))
    (Array.replicate (limit + 1) 0)
  let taken := (List.range limit).foldl
    (fun sum i => sum + counts.getD (i + 1) 0 * (1 <<< (limit - (i + 1)))) 0
  let counts := lengthenMany limit (taken - 1 <<< limit) counts
  (List.range (limit + 1)).flatMap fun length => List.replicate (counts.getD length 0) length

/-- The lengths of the words for symbols of the given weights, where weight zero stands for no word.
No word is longer than `limit`. -/
def codeLengths (limit : Nat) (weights : List Nat) : List Nat :=
  let used := (weights.zipIdx.filter fun (weight, _) => weight ≠ 0).mergeSort fun a b => a.1 ≤ b.1
  let lengths := limitLengths limit (wordLengths (used.map Prod.fst))
  ((used.reverse.zip lengths).foldl
    (fun given ((_, symbol), length) => given.setIfInBounds symbol length)
    (Array.replicate weights.length 0)).toList

end Folio.Deflate
