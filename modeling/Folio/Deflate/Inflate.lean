import Folio.Deflate.Alphabet
import Folio.Stream.Expansion

/-!
# Decoding deflate streams

A stream is a sequence of blocks. A block holds bytes as they are, or items in one of two kinds of
code: fixed, or given at the front of the block.

## Main definitions

* `Code`, `codeOfLengths?` — the codes that a block may use
* `BlockHead`, `readHead` — the front of a block
* `readItem` — an item of a block
* `copyBack` — carries out a copy
* `decoder` — the decoder of deflate streams
-/

namespace Folio.Deflate

/-- Reads a value of the stream. -/
abbrev Reader (α : Type) := BitReader .lowFirst α

/-- How many words of `width` bits are left free by words of the given lengths, if they are not
too many. `free` is the number of words of `width` bits that no shorter word begins. -/
def freeWords? (lengths : List Nat) : (widths : List Nat) → (free : Nat) → Option Nat
  | [], free => some free
  | width :: widths, free =>
    let used := lengths.count width
    if 2 * free < used then none else freeWords? lengths widths (2 * free - used)

/-- A code of a block. -/
inductive Code where
  /-- A code that leaves no word free. -/
  | full (code : PrefixCode)
  /-- A single word, of so many zeros. -/
  | single (length symbol : Nat)
  /-- No words. -/
  | wordless

/-- The code with the given lengths of words, if there is one that leaves no word free. A code with
a single word, or with none at all, is let through if `sparse` allows it. -/
def codeOfLengths? (sparse : Bool) (lengths : List Nat) : Option Code :=
  let longest := lengths.foldl max 0
  match freeWords? lengths ((List.range longest).map (· + 1)) 1 with
  | some 0 => some (.full (.ofLengths longest lengths))
  | _ =>
    match sparse, lengths.zipIdx.filter fun (length, _) => length ≠ 0 with
    | true, [] => some .wordless
    | true, [(length, symbol)] => some (.single length symbol)
    | _, _ => none

/-- The front of a block. -/
inductive BlockHead where
  /-- The block holds so many bytes as they are. -/
  | plain (size : Nat)
  /-- The block holds items in the given codes for literals and distances. -/
  | coded (literals distances : Code)

/-- The number of bits of a word that are looked up at once. -/
def lookUpWidth : Nat := 10

/-- Reads the only word of a code, of which `left` of `length` bits are left. A one among the bits
that are looked up is damage, and a one behind them stands for symbol zero. -/
def readSingle (length symbol : Nat) : (left : Nat) → Reader Nat
  | 0 => return symbol
  | left + 1 => do
    if !(← BitReader.bit) then readSingle length symbol left
    else if length ≤ left + lookUpWidth then BitReader.corrupt
    else return 0

/-- Reads a symbol. Bits that begin no word are damage. -/
def readSymbol : Code → Reader Nat
  | .full code => do
    match ← code.read? with
    | some symbol => pure symbol
    | none => BitReader.corrupt
  | .single length symbol => readSingle length symbol length
  | .wordless => do
    let _ ← BitReader.bit
    BitReader.corrupt

/-- Reads the front of a block of bytes as they are. -/
def readPlainHead : Reader BlockHead := do
  modify BitSource.alignToByte
  let size ← BitReader.lowNumber 16
  let check ← BitReader.lowNumber 16
  if size + check = 65535 then return .plain size else BitReader.corrupt

/-- Reads `left` lengths of code words behind those in `read`, which holds the last one first. A
length may be repeated, and zero has two repetitions of its own. `fuel` bounds the number of
symbols. -/
def readLengths (code : Code) :
    (fuel left : Nat) → (read : List Nat) → Reader (List Nat)
  | _, 0, read => pure read.reverse
  | 0, _ + 1, _ => BitReader.corrupt
  | fuel + 1, left + 1, read => do
    let symbol ← readSymbol code
    if symbol < 16 then readLengths code fuel left (symbol :: read)
    else
      let repeated (length count : Nat) : Reader (List Nat) :=
        if left + 1 < count then BitReader.corrupt
        else readLengths code fuel (left + 1 - count) (List.replicate count length ++ read)
      if symbol = 16 then
        match read with
        | [] => BitReader.corrupt
        | last :: _ =>
          let more ← BitReader.lowNumber 2
          repeated last (3 + more)
      else if symbol = 17 then
        let more ← BitReader.lowNumber 3
        repeated 0 (3 + more)
      else
        let more ← BitReader.lowNumber 7
        repeated 0 (11 + more)

/-- Reads the front of a block with codes of its own. -/
def readCodedHead : Reader BlockHead := do
  let literalCount := (← BitReader.lowNumber 5) + 257
  let distanceCount := (← BitReader.lowNumber 5) + 1
  let lengthCount := (← BitReader.lowNumber 4) + 4
  if 286 < literalCount || 30 < distanceCount then BitReader.corrupt
  else
    let given ← BitReader.times (BitReader.lowNumber 3) lengthCount
    let table := (lengthOrder.zip given).foldl
      (fun table (symbol, length) => table.setIfInBounds symbol length) (Array.replicate 19 0)
    match codeOfLengths? false table.toList with
    | none => BitReader.corrupt
    | some code =>
      let total := literalCount + distanceCount
      let lengths ← readLengths code total total []
      match codeOfLengths? true (lengths.take literalCount),
          codeOfLengths? true (lengths.drop literalCount) with
      | some literals, some distances => return .coded literals distances
      | _, _ => BitReader.corrupt

/-- Reads the front of a block, and whether it is the last one. -/
def readHead : Reader (Bool × BlockHead) := do
  let last ← BitReader.bit
  let kind ← BitReader.lowNumber 2
  match kind with
  | 0 => return (last, ← readPlainHead)
  | 1 => return (last, .coded (.full fixedLiterals) (.full fixedDistances))
  | 2 => return (last, ← readCodedHead)
  | _ => BitReader.corrupt

/-- Reads the value that a symbol and its extra bits stand for. -/
def readRange (ranges : Array (Nat × Nat)) (symbol : Nat) : Reader Nat :=
  match ranges[symbol]? with
  | some (least, extra) => return least + (← BitReader.lowNumber extra)
  | none => BitReader.corrupt

/-- Reads an item of a block. -/
def readItem (literals distances : Code) : Reader Item := do
  let symbol ← readSymbol literals
  if symbol < endSymbol then return .literal (UInt8.ofNat symbol)
  else if symbol = endSymbol then return .endOfBlock
  else
    let length ← readRange lengthRanges (symbol - 257)
    let distance ← readRange distanceRanges (← readSymbol distances)
    return .copy length distance

/-- Adds `count` bytes to the output, each of them the byte `distance` places before it. The output
starts behind zeros. -/
def copyBack (distance : Nat) : (count : Nat) → ByteArray → ByteArray
  | 0, output => output
  | count + 1, output =>
    let byte := if distance ≤ output.size then output.get! (output.size - distance) else 0
    copyBack distance count (output.push byte)

/-- Where in a block the decoder stands. -/
inductive Stage where
  /-- At the front. -/
  | head
  /-- Before so many bytes that are given as they are. -/
  | plain (left : Nat)
  /-- Among items in the given codes for literals and distances. -/
  | items (literals distances : Code)

/-- What the decoder keeps between two steps. -/
structure State where
  /-- The bits that are still to be read. -/
  bits : BitSource .lowFirst
  /-- Whether the block is the last one. -/
  last : Bool
  /-- Where in the block the decoder stands. -/
  stage : Stage
  /-- The number of bytes of the whole input. -/
  size : Nat

/-- What follows a block. -/
def State.afterBlock (s : State) : Continuation State :=
  if s.last then .finished else .again { s with stage := .head }

/-- What follows the place before `left` bytes that are given as they are. -/
def State.beforePlain (s : State) (left : Nat) : Continuation State :=
  if left = 0 then s.afterBlock else .again { s with stage := .plain left }

/-- Reads the front of a block. -/
def stepHead (s : State) (output : ByteArray) : ByteArray × Continuation State :=
  match readHead.run s.bits with
  | .error fault => (output, .ofFault fault)
  | .ok ((last, .coded literals distances), bits) =>
    (output, .again { s with bits, last, stage := .items literals distances })
  | .ok ((last, .plain size), bits) => (output, { s with bits, last }.beforePlain size)

/-- Puts out one of `left` bytes that are given as they are. -/
def stepPlain (s : State) (left : Nat) (output : ByteArray) : ByteArray × Continuation State :=
  match s.bits.bytes with
  | [] => (output, .stuck .truncated)
  | byte :: bytes => (output.push byte, { s with bits := ⟨[], bytes⟩ }.beforePlain (left - 1))

/-- Reads an item and carries it out. -/
def stepItem (s : State) (literals distances : Code) (output : ByteArray) :
    ByteArray × Continuation State :=
  match (readItem literals distances).run s.bits with
  | .error fault => (output, .ofFault fault)
  | .ok (.literal byte, bits) => (output.push byte, .again { s with bits })
  | .ok (.endOfBlock, bits) => (output, { s with bits }.afterBlock)
  | .ok (.copy length distance, bits) =>
    (copyBack distance length output, .again { s with bits })

/-- The decoder of deflate streams. It fills a window of output, and begins the next one when more
is asked for. Its input comes in pieces as large as the window. Every step reads at least one
bit. -/
def decoder : StreamDecoder where
  State := State
  start input := ⟨.ofBytes .lowFirst input.data.toList, false, .head, input.size⟩
  step s output :=
    match s.stage with
    | .head => stepHead s output
    | .plain left => stepPlain s left output
    | .items literals distances => stepItem s literals distances output
  steps input := 8 * input.size + 1
  room limit := (limit + windowSize - 1) / windowSize * windowSize
  fetched s := { s with bits := s.bits.fetched windowSize s.size }

end Folio.Deflate
