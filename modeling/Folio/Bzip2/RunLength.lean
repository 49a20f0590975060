/-!
# Runs of equal bytes

Before a block is sorted, runs are shortened: after four equal bytes comes a byte that counts how
many more of them follow. No run goes on in the next block.

## Main definitions

* `appendCopies` — adds a byte a number of times
* `Runs`, `Runs.push` — takes back the shortening, byte by byte
* `runsOf` — the runs of a string of bytes
* `Piece`, `Piece.cut` — the data of the blocks of a stream, with shortened runs
-/

namespace Folio.Bzip2

/-- Adds a byte `count` times. -/
def appendCopies (b : UInt8) : (count : Nat) → ByteArray → ByteArray
  | 0, bytes => bytes
  | count + 1, bytes => appendCopies b count (bytes.push b)

/-- The output so far, and the run of equal bytes at its end. -/
structure Runs where
  output : ByteArray
  /-- The byte of the run. -/
  last : UInt8
  /-- How many bytes of the run have been read, up to four. It is zero after a count. -/
  length : Nat

/-- Reads one more byte: a count after four equal bytes, else a byte of the output. -/
def Runs.push (r : Runs) (b : UInt8) : Runs :=
  if r.length = 4 then ⟨appendCopies r.last b.toNat r.output, r.last, 0⟩
  else if r.length ≠ 0 ∧ b = r.last then ⟨r.output.push b, b, r.length + 1⟩
  else ⟨r.output.push b, b, 1⟩

/-- The runs of equal bytes in a string of bytes behind a run of `length` bytes `last`. No run is
longer than 255 bytes. `runs` holds the runs so far, the last one first. -/
def runsFrom (runs : List (UInt8 × Nat)) (last : UInt8) (length : Nat) :
    List UInt8 → List (UInt8 × Nat)
  | [] => ((last, length) :: runs).reverse
  | b :: rest =>
    if b = last ∧ length < 255 then runsFrom runs last (length + 1) rest
    else runsFrom ((last, length) :: runs) b 1 rest

/-- The runs of equal bytes in a string of bytes. -/
def runsOf : List UInt8 → List (UInt8 × Nat)
  | [] => []
  | b :: rest => runsFrom [] b 1 rest

/-- What goes into a block. -/
structure Piece where
  data : ByteArray
  /-- The data with shortened runs. -/
  short : ByteArray

namespace Piece

/-- The piece without data. -/
def empty : Piece := ⟨.empty, .empty⟩

/-- Adds a run. -/
def add (p : Piece) (b : UInt8) (length : Nat) : Piece :=
  let short := appendCopies b (min length 4) p.short
  ⟨appendCopies b length p.data,
    if 4 ≤ length then short.push (UInt8.ofNat (length - 4)) else short⟩

/-- The pieces for runs behind the piece `p`. A piece is complete when its shortened runs take at
least `capacity` bytes. -/
def cutFrom (capacity : Nat) (p : Piece) : List (UInt8 × Nat) → List Piece
  | [] => [p]
  | (b, length) :: rest =>
    if capacity ≤ p.short.size then p :: cutFrom capacity (empty.add b length) rest
    else cutFrom capacity (p.add b length) rest

/-- The pieces for the blocks of a string of bytes. -/
def cut (capacity : Nat) (bytes : List UInt8) : List Piece :=
  (cutFrom capacity empty (runsOf bytes)).filter fun p => p.short.size ≠ 0

end Piece

end Folio.Bzip2
