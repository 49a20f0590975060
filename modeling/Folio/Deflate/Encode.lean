import Folio.Bytes.LittleEndian
import Folio.Deflate.CodeLengths
import Folio.Deflate.Inflate
import Folio.Deflate.Items

/-!
# Encoding deflate streams

An encoder may choose how to write its data. This one proposes blocks of items, in codes made for
them, and writes a block as it is if it would be no shorter. Whatever is proposed has to decode to
the data and be shorter than it, or the data is written as it is.

## Main definitions

* `encodePlain` — the data as it is, in blocks of up to 65535 bytes
* `Portion`, `portions` — the blocks of items
* `portionBits` — a block of items, in fixed codes, in codes of its own, or as it is
* `encode` — the stream
-/

namespace Folio.Deflate

/-! ### Bytes as they are -/

/-- The longest block of bytes as they are. -/
def maxPlain : Nat := 65535

/-- The front of a block of bytes as they are. -/
def plainHead (last : Bool) (size : Nat) : List UInt8 :=
  (if last then 1 else 0) :: le16 (UInt16.ofNat size) ++ le16 (UInt16.ofNat (maxPlain - size))

/-- Adds `more + 1` blocks that hold the data from a place on. -/
def encodePlainFrom (data : ByteArray) : (more place : Nat) → ByteArray → ByteArray
  | 0, place, stream =>
    let block := data.extract place data.size
    stream ++ (plainHead true block.size).toByteArray ++ block
  | more + 1, place, stream =>
    let block := data.extract place (place + maxPlain)
    encodePlainFrom data more (place + maxPlain)
      (stream ++ (plainHead false block.size).toByteArray ++ block)

/-- The data as it is, in blocks of up to 65535 bytes. -/
def encodePlain (data : ByteArray) : ByteArray :=
  encodePlainFrom data ((data.size - 1) / maxPlain) 0 .empty

/-! ### Items -/

/-- The symbol of a value: the last range that starts no later. -/
def rangeOf (ranges : Array (Nat × Nat)) (value : Nat) : Nat :=
  (ranges.findIdx? fun range => value < range.1).getD ranges.size - 1

/-- The extra bits of a value. -/
def extraBits (ranges : Array (Nat × Nat)) (value : Nat) : List Bool :=
  let (least, width) := ranges.getD (rangeOf ranges value) (0, 0)
  lowBits width (value - least)

/-- The bits of an item, from the code words of literals and of distances. -/
def Item.bits (literals distances : Array (List Bool)) : Item → List Bool
  | literal byte => literals.getD byte.toNat []
  | endOfBlock => literals.getD endSymbol []
  | copy length distance =>
    literals.getD (257 + rangeOf lengthRanges length) [] ++ extraBits lengthRanges length
      ++ distances.getD (rangeOf distanceRanges distance) [] ++ extraBits distanceRanges distance

/-- The bits of items up to the end of the block. -/
def itemBits (literals distances : PrefixCode) (items : Array Item) : List Bool :=
  let literals := literals.table 288
  let distances := distances.table 32
  (items.push .endOfBlock).toList.flatMap (Item.bits literals distances)

/-- How often a block uses the symbols for literals and lengths. -/
def literalWeights (items : Array Item) : List Nat :=
  (items.foldl (fun weights item =>
    match item with
    | .literal byte => weights.modify byte.toNat (· + 1)
    | .copy length _ => weights.modify (257 + rangeOf lengthRanges length) (· + 1)
    | .endOfBlock => weights) ((Array.replicate 286 0).modify endSymbol (· + 1))).toList

/-- How often a block uses the symbols for distances. -/
def distanceWeights (items : Array Item) : List Nat :=
  (items.foldl (fun weights item =>
    match item with
    | .copy _ distance => weights.modify (rangeOf distanceRanges distance) (· + 1)
    | _ => weights) (Array.replicate 30 0)).toList

/-- A list without the zeros at its end, but with at least `least` values. -/
def trimZeros (least : Nat) (values : List Nat) : List Nat :=
  let trimmed := (values.reverse.dropWhile (· == 0)).reverse
  values.take (max least trimmed.length)

/-- The symbols for a number of repetitions of the length zero, with their extra bits. -/
def zeroRun : (fuel count : Nat) → List (Nat × List Bool)
  | 0, _ => []
  | fuel + 1, count =>
    if count < 3 then List.replicate count (0, [])
    else if count < 11 then [(17, lowBits 3 (count - 3))]
    else (18, lowBits 7 (min count 138 - 11)) :: zeroRun fuel (count - min count 138)

/-- The symbols for a number of repetitions of the length before them, with their extra bits. -/
def repeatRun (length : Nat) : (fuel count : Nat) → List (Nat × List Bool)
  | 0, _ => []
  | fuel + 1, count =>
    if count < 3 then List.replicate count (length, [])
    else (16, lowBits 2 (min count 6 - 3)) :: repeatRun length fuel (count - min count 6)

/-- The symbols for a list of lengths, with their extra bits. -/
def lengthSymbols (lengths : List Nat) : List (Nat × List Bool) :=
  (lengths.splitBy (· == ·)).flatMap fun run =>
    match run with
    | [] => []
    | 0 :: _ => zeroRun run.length run.length
    | length :: more => (length, []) :: repeatRun length more.length more.length

/-- The front of a block with codes of its own, from the lengths of their words. -/
def codedHead (literals distances : List Nat) : List Bool :=
  let symbols := lengthSymbols (literals ++ distances)
  let weights := symbols.foldl (fun weights (symbol, _) => weights.modify symbol (· + 1))
    (Array.replicate 19 0)
  let lengths := codeLengths maxLengthWord weights.toList
  let given := trimZeros 4 (lengthOrder.map fun symbol => lengths.getD symbol 0)
  let words := (PrefixCode.ofLengths maxLengthWord lengths).table 19
  lowBits 5 (literals.length - 257) ++ lowBits 5 (distances.length - 1)
    ++ lowBits 4 (given.length - 4) ++ given.flatMap (lowBits 3)
    ++ symbols.flatMap fun (symbol, extra) => words.getD symbol [] ++ extra

/-- Items as a block in codes made for it, behind the bit that says whether it is the last one. -/
def codedBits (items : Array Item) : List Bool :=
  let literals := trimZeros 257 (codeLengths maxWord (literalWeights items))
  let distances := trimZeros 1 (codeLengths maxWord (distanceWeights items))
  lowBits 2 2 ++ codedHead literals distances
    ++ itemBits (.ofLengths maxWord literals) (.ofLengths maxWord distances) items

/-- Items as a block in the fixed codes, behind the bit that says whether it is the last one. -/
def fixedBits (items : Array Item) : List Bool :=
  lowBits 2 1 ++ itemBits fixedLiterals fixedDistances items

/-! ### Blocks -/

/-- A part of the data that becomes a block. -/
structure Portion where
  /-- Where the part starts. -/
  start : Nat
  size : Nat
  /-- The items that make it up. -/
  items : Array Item
  /-- The room that the items take while the block is put together. -/
  room : Nat

namespace Portion

/-- The empty portion at a place. -/
def empty (start : Nat) : Portion := ⟨start, 0, #[], 1⟩

/-- Adds an item. A literal takes one byte, a copy three, and every eight items one more. -/
def add (p : Portion) (item : Item) : Portion :=
  let (size, room) :=
    match item with
    | .copy length _ => (length, 3)
    | _ => (1, 1)
  let ⟨start, sizeBefore, items, roomBefore⟩ := p
  let more := if items.size % 8 = 7 then 1 else 0
  ⟨start, sizeBefore + size, items.push item, roomBefore + room + more⟩

/-- The room for the items of a block. -/
def maxRoom : Nat := 65528

/-- From this size on a portion is complete if its items take no less room than its bytes. -/
def maxFatSize : Nat := 31744

/-- Whether a portion is complete. A `thrifty` encoder does not go on with items that save
nothing. -/
def isComplete (thrifty : Bool) (p : Portion) : Bool :=
  maxRoom < p.room || (thrifty && maxFatSize < p.size && p.size ≤ p.room * 115 / 128)

end Portion

/-- The portions of the data that items make up, the last one of which may be empty. -/
def portions (thrifty : Bool) (items : Array Item) : Array Portion :=
  let (complete, last) := items.foldl (fun (complete, p) item =>
    let p := p.add item
    if p.isComplete thrifty then (complete.push p, Portion.empty (p.start + p.size))
    else (complete, p)) (#[], Portion.empty 0)
  complete.push last

/-- Below this size a portion is written in the fixed codes. -/
def minCodedSize : Nat := 48

/-- Up to this size a portion is never written as it is. -/
def minPlainSize : Nat := 32

/-- A portion as it is, behind `before` bits of the stream. -/
def plainBits (data : ByteArray) (p : Portion) (before : Nat) : List Bool :=
  List.replicate (2 + (6 + 7 * before) % 8) false ++ lowBits 16 p.size
    ++ lowBits 16 (maxPlain - p.size)
    ++ (data.extract p.start (p.start + p.size)).data.toList.flatMap BitOrder.lowFirst.unpack

/-- A portion as a block, behind `before` bits of the stream. It is written as it is if that is no
longer and the data is still at hand. -/
def portionBits (data : ByteArray) (p : Portion) (isLast : Bool) (before : Nat) : List Bool :=
  let bits := if p.size < minCodedSize then fixedBits p.items else codedBits p.items
  let bytes := (before + 1 + bits.length) / 8 - (before + 1) / 8
  isLast :: if minPlainSize < p.size && p.size ≤ bytes + 1 && p.size ≤ windowSize then
      plainBits data p (before + 1)
    else bits

/-- The bits of portions behind `before` bits of the stream, the last one of which ends it. -/
def portionsBits (data : ByteArray) : (before : Nat) → List Portion → List Bool
  | _, [] => []
  | before, p :: rest =>
    let bits := portionBits data p rest.isEmpty before
    bits ++ portionsBits data (before + bits.length) rest

/-- The stream that the encoder proposes for the data at a level. -/
def propose (level : Nat) (data : ByteArray) : ByteArray :=
  if level = 0 then encodePlain data
  else
    let items := if level = 1 then findItemsQuickly data else findItems (.ofLevel level) data
    BitOrder.lowFirst.pack (portionsBits data 0 (portions (level ≠ 1) items).toList)

/-- A deflate stream for the data: the proposal, if it decodes to the data and is shorter than the
data as it is. -/
def encode (level : Nat) (data : ByteArray) : ByteArray :=
  let plain := encodePlain data
  let proposed := propose level data
  if proposed.size < plain.size then
    let e := decoder.full proposed
    if e.fault.isNone && e.output == data then proposed else plain
  else plain

end Folio.Deflate
