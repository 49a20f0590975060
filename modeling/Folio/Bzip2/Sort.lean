import Folio.Bzip2.Rotation

/-!
# Sorting the rotations of a block

The rotations are sorted by their first byte, then by their first two, four, eight bytes, and so
on. Each round sorts by the second half, which the round before has sorted, and then stably by the
first half.

## Main definitions

* `sortRotations` — the rotations in order, each given by the place where it starts
* `rotate` — the last column of the sorted rotations, and the row of the block itself
-/

namespace Folio.Bzip2

/-- The rotations in order, each given by the place where it starts. -/
def sortRotations (text : ByteArray) : Array Nat := Id.run do
  let size := text.size
  let mut order := successors text
  let mut rank := Array.replicate size 0
  let mut ranks := 1
  for i in [1:size] do
    let row := order.getD i 0
    if text.get! row != text.get! (order.getD (i - 1) 0) then ranks := ranks + 1
    rank := rank.setIfInBounds row (ranks - 1)
  for round in [0:64] do
    let width := 1 <<< round
    if size ≤ width || size ≤ ranks then break
    let mut starts := Array.replicate (ranks + 1) 0
    for r in rank do
      starts := starts.modify (r + 1) (· + 1)
    for r in [1:ranks] do
      starts := starts.setIfInBounds r (starts.getD r 0 + starts.getD (r - 1) 0)
    let mut sorted := Array.replicate size 0
    for row in order do
      let earlier := if width ≤ row then row - width else row + size - width
      let r := rank.getD earlier 0
      sorted := sorted.setIfInBounds (starts.getD r 0) earlier
      starts := starts.modify r (· + 1)
    let mut finer := Array.replicate size 0
    let mut count := 1
    for i in [1:size] do
      let row := sorted.getD i 0
      let above := sorted.getD (i - 1) 0
      if rank.getD row 0 != rank.getD above 0
          || rank.getD ((row + width) % size) 0 != rank.getD ((above + width) % size) 0 then
        count := count + 1
      finer := finer.setIfInBounds row (count - 1)
    order := sorted
    rank := finer
    ranks := count
  return order

/-- The last column of the sorted rotations, and the row of the block itself. -/
def rotate (text : ByteArray) : ByteArray × Nat :=
  let order := sortRotations text
  let column := order.foldl
    (fun column row => column.push (text.get! (if row = 0 then text.size - 1 else row - 1))) .empty
  (column, (order.findIdx? (· == 0)).getD 0)

end Folio.Bzip2
