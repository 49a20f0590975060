/-!
# Sets of characters

A set of characters is a list of inclusive ranges of code points.

## Main definitions

* `CharSet` — the ranges, ascending and apart from each other
* `CharSet.ofRanges`, `CharSet.contains` — what a set holds
* `CharSet.union`, `CharSet.complement`, `CharSet.inter`, `CharSet.diff`, `CharSet.symmDiff` — the
  operations on sets
* `CharSet.closeCase` — the set with both forms of its letters
* `asciiClass?` — the classes that have a name
-/

namespace Folio.Pattern

/-- A set of characters. -/
structure CharSet where
  /-- The inclusive ranges of code points, ascending and apart from each other. -/
  ranges : List (Nat × Nat)
deriving DecidableEq, Repr, Inhabited

namespace CharSet

/-- Joins ranges that touch. None of them starts before the one in front of it. -/
def joinFrom (range : Nat × Nat) : List (Nat × Nat) → List (Nat × Nat)
  | [] => [range]
  | next :: rest =>
    if next.1 ≤ range.2 + 1 then joinFrom (range.1, max range.2 next.2) rest
    else range :: joinFrom next rest

/-- The set of the code points in some of the ranges. -/
def ofRanges (ranges : List (Nat × Nat)) : CharSet :=
  match ranges.mergeSort fun a b => a.1 ≤ b.1 with
  | [] => ⟨[]⟩
  | range :: rest => ⟨joinFrom range rest⟩

/-- The set without characters. -/
def empty : CharSet := ⟨[]⟩

/-- The set of a single code point. -/
def single (code : Nat) : CharSet := ⟨[(code, code)]⟩

/-- Whether a set holds a character. -/
def contains (s : CharSet) (c : Char) : Bool :=
  s.ranges.any fun range => range.1 ≤ c.toNat && c.toNat ≤ range.2

/-- Whether a set holds no characters. -/
def isEmpty (s : CharSet) : Bool := s.ranges.isEmpty

/-- Whether a set holds ASCII characters only. -/
def isAscii (s : CharSet) : Bool := s.ranges.all fun range => range.2 < 0x80

/-- The characters of one set or the other. -/
def union (s t : CharSet) : CharSet := ofRanges (s.ranges ++ t.ranges)

/-- The ranges from `least` up to `top` that lie between ascending ranges. -/
def gaps (top : Nat) : (least : Nat) → List (Nat × Nat) → List (Nat × Nat)
  | least, [] => if least ≤ top then [(least, top)] else []
  | least, range :: rest =>
    (if least < range.1 then [(least, range.1 - 1)] else []) ++ gaps top (range.2 + 1) rest

/-- The code points up to `top` that a set does not hold. -/
def complement (top : Nat) (s : CharSet) : CharSet := ⟨gaps top 0 s.ranges⟩

/-- The last code point. -/
def lastCode : Nat := 0x10FFFF

/-- The characters of both sets. -/
def inter (s t : CharSet) : CharSet :=
  ((s.complement lastCode).union (t.complement lastCode)).complement lastCode

/-- The characters of the first set that the second one does not hold. -/
def diff (s t : CharSet) : CharSet := s.inter (t.complement lastCode)

/-- The characters of exactly one of two sets. -/
def symmDiff (s t : CharSet) : CharSet := (s.diff t).union (t.diff s)

/-- The upper case letters of ASCII. -/
def upper : CharSet := ⟨[(0x41, 0x5A)]⟩

/-- The lower case letters of ASCII. -/
def lower : CharSet := ⟨[(0x61, 0x7A)]⟩

/-- The set with both forms of its ASCII letters. -/
def closeCase (s : CharSet) : CharSet :=
  let down := (s.inter upper).ranges.map fun range => (range.1 + 32, range.2 + 32)
  let up := (s.inter lower).ranges.map fun range => (range.1 - 32, range.2 - 32)
  ofRanges (s.ranges ++ down ++ up)

/-- The decimal digits of ASCII. -/
def digits : CharSet := ⟨[(0x30, 0x39)]⟩

/-- The blanks of ASCII. -/
def blanks : CharSet := ⟨[(0x09, 0x0D), (0x20, 0x20)]⟩

/-- What words of ASCII are made of. -/
def words : CharSet := ⟨[(0x30, 0x39), (0x41, 0x5A), (0x5F, 0x5F), (0x61, 0x7A)]⟩

end CharSet

/-- The class of a name. -/
def asciiClass? (name : String) : Option CharSet :=
  match name with
  | "alnum" => some ⟨[(0x30, 0x39), (0x41, 0x5A), (0x61, 0x7A)]⟩
  | "alpha" => some ⟨[(0x41, 0x5A), (0x61, 0x7A)]⟩
  | "ascii" => some ⟨[(0x00, 0x7F)]⟩
  | "blank" => some ⟨[(0x09, 0x09), (0x20, 0x20)]⟩
  | "cntrl" => some ⟨[(0x00, 0x1F), (0x7F, 0x7F)]⟩
  | "digit" => some .digits
  | "graph" => some ⟨[(0x21, 0x7E)]⟩
  | "lower" => some .lower
  | "print" => some ⟨[(0x20, 0x7E)]⟩
  | "punct" => some ⟨[(0x21, 0x2F), (0x3A, 0x40), (0x5B, 0x60), (0x7B, 0x7E)]⟩
  | "space" => some .blanks
  | "upper" => some .upper
  | "word" => some .words
  | "xdigit" => some ⟨[(0x30, 0x39), (0x41, 0x46), (0x61, 0x66)]⟩
  | _ => none

end Folio.Pattern
