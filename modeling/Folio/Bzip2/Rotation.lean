/-!
# Sorted rotations

A block is written as the last column of the table of its rotations, sorted. The column says where
each of its bytes stands in the block, because the first column holds the same bytes sorted, and
equal bytes keep their order.

## Main definitions

* `successors` — for every row, the row whose rotation starts one byte later
* `unrotate` — the bytes of the block, read by following the rows
-/

namespace Folio.Bzip2

/-- The places of the column by the byte that stands there. -/
def placesByByte (column : ByteArray) : Array (Array Nat) :=
  column.data.toList.zipIdx.foldl
    (fun places (b, place) => places.modify b.toNat (·.push place)) (Array.replicate 256 #[])

/-- For every row, the row whose rotation starts one byte later: the places of the column in the
order of their bytes. -/
def successors (column : ByteArray) : Array Nat :=
  (placesByByte column).foldl (· ++ ·) #[]

/-- Adds the bytes of `count` rows from the given one on, each followed by its successor. -/
def follow (column : ByteArray) (successors : Array Nat) :
    (count row : Nat) → ByteArray → ByteArray
  | 0, _, bytes => bytes
  | count + 1, row, bytes =>
    follow column successors count (successors.getD row 0) (bytes.push (column.get! row))

/-- The first `count` bytes of the block whose rotation stands in row `origin`. A block that is
shorter starts anew. -/
def unrotate (column : ByteArray) (origin count : Nat) : ByteArray :=
  let successors := successors column
  follow column successors count (successors.getD origin 0) .empty

end Folio.Bzip2
