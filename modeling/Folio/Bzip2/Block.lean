import Folio.Stream.PrefixCode
import Folio.Bzip2.RunLength

/-!
# Blocks of a bzip2 stream

A block holds its column in three layers: prefix codes that change every fifty symbols, symbols
that count how often the most recent byte is repeated or point into a list of bytes by how recently
they were used, and the bytes themselves.

## Main definitions

* `Block` — what a block holds
* `readUsedBytes`, `readChoices`, `readCode` — the tables in front of the symbols
* `Column`, `readColumn` — the symbols
* `readBlock` — the whole block
-/

namespace Folio.Bzip2

/-- Reads a value of the stream. -/
abbrev Reader (α : Type) := BitReader .highFirst α

/-- What a block holds. -/
structure Block where
  /-- The checksum of the output. -/
  crc : UInt32
  /-- Whether the block was disturbed before it was sorted. -/
  randomised : Bool
  /-- The row of the rotation by zero. -/
  origin : Nat
  /-- The last column of the sorted rotations. -/
  column : ByteArray

/-- The bytes of a block of the lowest level. -/
def bytesPerLevel : Nat := 100000

/-- The number of symbols between two choices of a code. -/
def groupSize : Nat := 50

/-- The number of choices that count. Choices beyond it are read and have no effect. -/
def maxChoices : Nat := 18002

/-- The longest code words. -/
def maxWord : Nat := 20

/-- Reads which of sixteen things are in use. -/
def readFlags : Reader (List Nat) := do
  let flags ← BitReader.times BitReader.bit 16
  return flags.zipIdx.filterMap fun (used, i) => if used then some i else none

/-- Reads which bytes the block uses, in ascending order. -/
def readUsedBytes : Reader (List UInt8) := do
  let groups ← readFlags
  let bytes ← groups.mapM fun group => return (← readFlags).map (16 * group + ·)
  return bytes.flatten.map UInt8.ofNat

/-- Reads a number below `limit`, written as so many ones and a zero, behind `ones` ones. `fuel` is
the number of bits that it can have. -/
def readOnes (limit : Nat) : (fuel ones : Nat) → Reader Nat
  | 0, _ => BitReader.corrupt
  | fuel + 1, ones => do
    if ← BitReader.bit then
      if limit ≤ ones + 1 then BitReader.corrupt else readOnes limit fuel (ones + 1)
    else return ones

/-- Takes the value at a place of a list to its front. -/
def moveToFront {α : Type} (list : List α) (place : Nat) : Option (α × List α) :=
  list[place]?.map fun value => (value, value :: list.eraseIdx place)

/-- The choices that are given by how recently they were made, from `recent` on. -/
def choicesOfPlaces (recent : List Nat) : (places : List Nat) → List Nat
  | places => (places.foldl (fun (choices, recent) place =>
      match moveToFront recent place with
      | some (choice, recent) => (choice :: choices, recent)
      | none => (choices, recent)) (([] : List Nat), recent)).1.reverse

/-- Reads which code each group of symbols is written in. -/
def readChoices (codes : Nat) : Reader (List Nat) := do
  let count ← BitReader.highNumber 15
  if count = 0 then BitReader.corrupt
  else
    let places ← BitReader.times (readOnes codes codes 0) count
    return choicesOfPlaces (List.range codes) (places.take maxChoices)

/-- Reads the length of a code word as a change of the length before it. `fuel` bounds the number
of bits. -/
def readLength : (fuel length : Nat) → Reader Nat
  | 0, _ => BitReader.corrupt
  | fuel + 1, length => do
    if length < 1 || maxWord < length then BitReader.corrupt
    else if ← BitReader.bit then
      if ← BitReader.bit then readLength fuel (length - 1) else readLength fuel (length + 1)
    else return length

/-- Reads the lengths of `count` code words behind those in `read`, which holds the last one
first. -/
def readLengths (fuel : Nat) : (count length : Nat) → (read : List Nat) → Reader (List Nat)
  | 0, _, read => pure read.reverse
  | count + 1, length, read => do
    let length ← readLength fuel length
    readLengths fuel count length (length :: read)

/-- Reads a code for the given number of symbols. -/
def readCode (symbols : Nat) : Reader PrefixCode := do
  let fuel := (← get).bound
  let first ← BitReader.highNumber 5
  let lengths ← readLengths fuel symbols first []
  return .ofLengths maxWord lengths

/-- Reads a symbol. Bits that begin no word are damage, which shows at the bit after the longest
words. -/
def readSymbol (code : PrefixCode) : Reader Nat := do
  match ← code.read? with
  | some symbol => pure symbol
  | none =>
    let _ ← BitReader.bit
    BitReader.corrupt

/-- A weight that no digit of a number of repetitions has. -/
def maxWeight : Nat := 0x200000

/-- A column while its symbols are read. -/
structure Column where
  /-- The bytes so far. -/
  bytes : ByteArray
  /-- The bytes that the block uses, the most recent one first. -/
  recent : List UInt8
  /-- How often the most recent byte is to be repeated. -/
  pending : Nat
  /-- What the next digit of this number counts. -/
  weight : Nat

/-- Reads one more digit of the number of repetitions. -/
def Column.count (c : Column) (digit : Nat) : Column :=
  { c with pending := c.pending + (digit + 1) * c.weight, weight := 2 * c.weight }

/-- Repeats the most recent byte as often as has been counted, unless the column would become too
long. -/
def Column.flush? (c : Column) (capacity : Nat) : Option Column :=
  if c.pending = 0 then some { c with weight := 1 }
  else if capacity < c.bytes.size + c.pending then none
  else some { c with bytes := appendCopies (c.recent.headD 0) c.pending c.bytes,
                     pending := 0, weight := 1 }

/-- Adds the byte at a place of the list of recent bytes, unless the column would become too
long. -/
def Column.add? (c : Column) (capacity place : Nat) : Option Column :=
  if capacity ≤ c.bytes.size then none
  else (moveToFront c.recent place).map fun (byte, recent) =>
    { c with bytes := c.bytes.push byte, recent }

/-- Reads the symbols of a column up to the last one, `endSymbol`. Every symbol is written in the
code at the front of the list. -/
def readColumn (capacity endSymbol : Nat) : List PrefixCode → Column → Reader ByteArray
  | [], _ => BitReader.corrupt
  | code :: codes, column => do
    let symbol ← readSymbol code
    if symbol ≤ 1 then
      if maxWeight ≤ column.weight then BitReader.corrupt
      else readColumn capacity endSymbol codes (column.count symbol)
    else
      match column.flush? capacity with
      | none => BitReader.corrupt
      | some column =>
        if symbol = endSymbol then return column.bytes
        else
          match column.add? capacity (symbol - 1) with
          | none => BitReader.corrupt
          | some column => readColumn capacity endSymbol codes column

/-- The codes in which the symbols are written, one after another. -/
def codesOfSymbols (codes : List PrefixCode) (choices : List Nat) : List PrefixCode :=
  let codes := codes.toArray
  choices.flatMap fun choice => List.replicate groupSize (codes.getD choice ⟨[]⟩)

/-- Reads a block of the given level behind its signature. -/
def readBlock (level : Nat) : Reader Block := do
  let crc ← BitReader.highNumber 32
  let randomised ← BitReader.bit
  let origin ← BitReader.highNumber 24
  if 10 + bytesPerLevel * level < origin then BitReader.corrupt
  else
    let used ← readUsedBytes
    if used.isEmpty then BitReader.corrupt
    else
      let codeCount ← BitReader.highNumber 3
      if codeCount < 2 || 6 < codeCount then BitReader.corrupt
      else
        let choices ← readChoices codeCount
        let codes ← BitReader.times (readCode (used.length + 2)) codeCount
        let column ← readColumn (bytesPerLevel * level) (used.length + 1)
          (codesOfSymbols codes choices) ⟨.empty, used, 0, 1⟩
        if column.size ≤ origin then BitReader.corrupt
        else return { crc := UInt32.ofNat crc, randomised, origin, column }

end Folio.Bzip2
