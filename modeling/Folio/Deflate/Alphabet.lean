import Folio.Stream.PrefixCode

/-!
# The alphabets of deflate

A deflate stream is made of literal bytes and of copies of earlier output. Lengths and distances of
copies are written as a symbol that gives a range and extra bits that give the place in the range.

## Main definitions

* `windowSize` — the number of bytes that are kept at hand
* `Item` — a literal byte, a copy, or the end of a block
* `lengthRanges`, `distanceRanges` — the ranges of the symbols
* `fixedLiterals`, `fixedDistances` — the codes of blocks that bring none of their own
* `lengthOrder` — the order in which a block gives the lengths of its first code
-/

namespace Folio.Deflate

/-- The number of bytes that are kept at hand for copies. -/
def windowSize : Nat := 32768

/-- What a block is made of. -/
inductive Item where
  /-- One byte. -/
  | literal (byte : UInt8)
  /-- A copy of earlier output, byte after byte. -/
  | copy (length distance : Nat)
  | endOfBlock
deriving DecidableEq, Repr, Inhabited

/-- The symbol of the end of a block. -/
def endSymbol : Nat := 256

/-- For the symbols from 257 on, the least length and the number of extra bits. -/
def lengthRanges : Array (Nat × Nat) := #[
  (3, 0), (4, 0), (5, 0), (6, 0), (7, 0), (8, 0), (9, 0), (10, 0),
  (11, 1), (13, 1), (15, 1), (17, 1), (19, 2), (23, 2), (27, 2), (31, 2),
  (35, 3), (43, 3), (51, 3), (59, 3), (67, 4), (83, 4), (99, 4), (115, 4),
  (131, 5), (163, 5), (195, 5), (227, 5), (258, 0)]

/-- For every distance symbol, the least distance and the number of extra bits. -/
def distanceRanges : Array (Nat × Nat) := #[
  (1, 0), (2, 0), (3, 0), (4, 0), (5, 1), (7, 1), (9, 2), (13, 2),
  (17, 3), (25, 3), (33, 4), (49, 4), (65, 5), (97, 5), (129, 6), (193, 6),
  (257, 7), (385, 7), (513, 8), (769, 8), (1025, 9), (1537, 9), (2049, 10), (3073, 10),
  (4097, 11), (6145, 11), (8193, 12), (12289, 12), (16385, 13), (24577, 13)]

/-- The longest code words of literals and distances. -/
def maxWord : Nat := 15

/-- The longest code words of code lengths. -/
def maxLengthWord : Nat := 7

/-- The lengths of the words for literals in blocks without codes of their own. -/
def fixedLiteralLengths : List Nat :=
  List.replicate 144 8 ++ List.replicate 112 9 ++ List.replicate 24 7 ++ List.replicate 8 8

/-- The code for literals in blocks without codes of their own. -/
def fixedLiterals : PrefixCode := .ofLengths 9 fixedLiteralLengths

/-- The code for distances in blocks without codes of their own. -/
def fixedDistances : PrefixCode := .ofLengths 5 (List.replicate 32 5)

/-- The order in which a block gives the lengths of the code for its code lengths. -/
def lengthOrder : List Nat := [16, 17, 18, 0, 8, 7, 9, 6, 10, 5, 11, 4, 12, 3, 13, 2, 14, 1, 15]

end Folio.Deflate
