import Folio.Bzip2.Choices
import Folio.Bzip2.Decode
import Folio.Bzip2.Sort

/-!
# Encoding bzip2 streams

An encoder may choose the codes of a block. This one proposes blocks in codes that are made for
their symbols. Whatever is proposed has to decode to the data, or the data is written byte by byte,
every byte as a block of its own.

## Main definitions

* `columnSymbols` — the symbols for a column
* `blockBits` — a block
* `streamBits` — a stream of blocks
* `encode` — a stream for the data
-/

namespace Folio.Bzip2

/-! ### Symbols -/

/-- The digits of a number of repetitions, each of which counts once or twice its weight. `fuel`
bounds the number of digits. -/
def runDigits : (fuel count : Nat) → List Nat
  | 0, _ => []
  | _ + 1, 0 => []
  | fuel + 1, count + 1 => count % 2 :: runDigits fuel (count / 2)

/-- The symbols for a column behind those in `symbols`, which holds the last one first, and a number
of repetitions of the most recent byte. -/
def columnSymbolsFrom (symbols : List Nat) (pending : Nat) (recent : List UInt8) :
    List UInt8 → List Nat
  | [] => ((runDigits 32 pending).reverse ++ symbols).reverse
  | b :: rest =>
    let place := recent.idxOf b
    if place = 0 then columnSymbolsFrom symbols (pending + 1) recent rest
    else
      columnSymbolsFrom ((place + 1) :: ((runDigits 32 pending).reverse ++ symbols)) 0
        (b :: recent.eraseIdx place) rest

/-- The symbols for a column of the given bytes in use, with the one for its end. -/
def columnSymbols (used : List UInt8) (column : ByteArray) : List Nat :=
  columnSymbolsFrom [] 0 used column.data.toList ++ [used.length + 1]

/-! ### Tables -/

/-- Which of sixteen things are in use. -/
def flagBits (used : Nat → Bool) : List Bool := (List.range 16).map used

/-- The bytes that a block uses. -/
def usedBits (used : List UInt8) : List Bool :=
  let groupUsed := fun group => used.any fun b => b.toNat / 16 == group
  flagBits groupUsed ++ ((List.range 16).filter groupUsed).flatMap fun group =>
    flagBits fun i => used.contains (UInt8.ofNat (16 * group + i))

/-- The lengths of code words, each as the change from the one before it. -/
def lengthBits : (before : Nat) → List Nat → List Bool
  | _, [] => []
  | before, length :: rest =>
    (List.replicate (length - before) [true, false]).flatten
      ++ (List.replicate (before - length) [true, true]).flatten ++ false :: lengthBits length rest

/-- The lengths of the words of a code. -/
def codeBits (lengths : List Nat) : List Bool :=
  highBits 5 (lengths.headD 1) ++ lengthBits (lengths.headD 1) lengths

/-- How recently each choice was made before, with `recent` as the choices before them. -/
def placesOfChoices (recent : List Nat) : (choices : List Nat) → List Nat
  | [] => []
  | choice :: choices =>
    recent.idxOf choice :: placesOfChoices (choice :: recent.erase choice) choices

/-- The choices of a code for each group of symbols. -/
def choiceBits (codes : Nat) (choices : List Nat) : List Bool :=
  highBits 15 choices.length ++ (placesOfChoices (List.range codes) choices).flatMap fun place =>
    List.replicate place true ++ [false]

/-! ### Blocks -/

/-- Symbols in the codes that their groups have chosen. -/
def symbolBits (codes : List (List Nat)) (choices symbols : List Nat) : List Bool :=
  let words := (codes.map fun lengths =>
    (PrefixCode.ofLengths maxWord lengths).table lengths.length).toArray
  ((groupsOf symbols).zip choices).flatMap fun (group, choice) =>
    let words := words.getD choice #[]
    group.flatMap fun symbol => words.getD symbol []

/-- A block, from its checksum, the row of the block itself, the bytes in use, the lengths of the
words of its codes, the choices of the groups, and the symbols. -/
def blockBits (crc : UInt32) (origin : Nat) (used : List UInt8) (codes : List (List Nat))
    (choices symbols : List Nat) : List Bool :=
  blockSignature.flatMap (highBits 8) ++ highBits 32 crc.toNat ++ [false] ++ highBits 24 origin
    ++ usedBits used ++ highBits 3 codes.length ++ choiceBits codes.length choices
    ++ codes.flatMap codeBits ++ symbolBits codes choices symbols

/-- The bytes that occur in a text, in ascending order. -/
def usedBytes (text : ByteArray) : List UInt8 :=
  let seen := text.data.foldl (fun seen b => seen.setIfInBounds b.toNat true)
    (Array.replicate 256 false)
  ((List.range 256).filter fun b => seen.getD b false).map UInt8.ofNat

/-- A block for a piece of the data, in codes made for it. -/
def proposeBlock (p : Piece) : List Bool :=
  let (column, origin) := rotate p.short
  let used := usedBytes column
  let symbols := columnSymbols used column
  let (codes, choices) := chooseCodes (used.length + 2) symbols
  blockBits (highCrc32 p.data) origin used codes choices symbols

/-- A block for a single byte: one repetition of the only byte in use. -/
def singleBlock (b : UInt8) : List Bool :=
  blockBits (highCrc32 [b].toByteArray) 0 [b] [[1, 2, 2], [1, 2, 2]] [0] [0, 2]

/-! ### Streams -/

/-- A stream of blocks, from their checksums and their bits. -/
def streamBits (level : Nat) (blocks : List (UInt32 × List Bool)) : List Bool :=
  [0x42, 0x5A, 0x68, 0x30 + level].flatMap (highBits 8) ++ blocks.flatMap Prod.snd
    ++ endSignature.flatMap (highBits 8)
    ++ highBits 32 (blocks.foldl (fun combined block => combineCrc combined block.1) 0).toNat

/-- The size at which a block of a level is complete, which leaves room for one more run and some
bytes. -/
def blockSize (level : Nat) : Nat := bytesPerLevel * level - 19

/-- The stream that the encoder proposes for the data at a level. -/
def propose (level : Nat) (data : ByteArray) : ByteArray :=
  let pieces := Piece.cut (blockSize level) data.data.toList
  BitOrder.highFirst.pack
    (streamBits level (pieces.map fun p => (highCrc32 p.data, proposeBlock p)))

/-- A stream that holds every byte as a block of its own. -/
def encodeSingly (level : Nat) (data : ByteArray) : ByteArray :=
  BitOrder.highFirst.pack (streamBits level
    (data.data.toList.map fun b => (highCrc32 [b].toByteArray, singleBlock b)))

/-- A bzip2 stream for the data: the proposal, if it decodes to the data. -/
def encode (level : Nat) (data : ByteArray) : ByteArray :=
  let proposed := propose level data
  let e := decoder.full proposed
  if e.fault.isNone && e.output == data then proposed else encodeSingly level data

end Folio.Bzip2
