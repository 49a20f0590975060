import Folio.Bzip2.Block
import Folio.Bzip2.Randomised
import Folio.Bzip2.Rotation
import Folio.Checksum.Crc32
import Folio.Stream.Expansion

/-!
# Decoding bzip2 streams

A stream is a header with a level, a sequence of blocks, and an end with a checksum of the checksums
of the blocks. What follows the end is left alone.

## Main definitions

* `Block.expand` — the output of a block
* `readHeader`, `readSignature` — the header of a stream, and the signature of what follows
* `decoder` — the decoder of bzip2 streams
-/

namespace Folio.Bzip2

/-- Adds the output of a block, and says whether its last run is complete. If the count of that run
is missing, the byte that starts the block anew is taken for it. -/
def Block.expand (b : Block) (output : ByteArray) : ByteArray × Bool :=
  let size := b.column.size
  let text := unrotate b.column b.origin (size + 1)
  let text := if b.randomised then restore text else text
  let runs := (text.data.toList.take size).foldl Runs.push ⟨output, 0, 0⟩
  if runs.length = 4 then ((runs.push (text.get! size)).output, false) else (runs.output, true)

/-- The signature of a block. -/
def blockSignature : List Nat := [0x31, 0x41, 0x59, 0x26, 0x53, 0x59]

/-- The signature of the end of a stream. -/
def endSignature : List Nat := [0x17, 0x72, 0x45, 0x38, 0x50, 0x90]

/-- Reads bytes and fails at the first one that is not as expected. -/
def expectBytes : List Nat → Reader Unit
  | [] => pure ()
  | expected :: rest => do
    if (← BitReader.highNumber 8) = expected then expectBytes rest else BitReader.corrupt

/-- Reads a signature, and whether it is that of a block. -/
def readSignature : Reader Bool := do
  let first ← BitReader.highNumber 8
  if some first = endSignature.head? then
    expectBytes endSignature.tail
    return false
  else if some first = blockSignature.head? then
    expectBytes blockSignature.tail
    return true
  else BitReader.corrupt

/-- Reads bytes of the header and fails at the first one that is not as expected. -/
def expectMagic : List Nat → Reader Unit
  | [] => pure ()
  | expected :: rest => do
    if (← BitReader.highNumber 8) = expected then expectMagic rest else throw .badMagic

/-- Reads the header of a stream: its signature and its level. -/
def readHeader : Reader Nat := do
  expectMagic [0x42, 0x5A, 0x68]
  let digit ← BitReader.highNumber 8
  if 0x31 ≤ digit && digit ≤ 0x39 then return digit - 0x30 else throw .badMagic

/-- What stands at the front of the rest of a stream. -/
inductive Part where
  | block (block : Block)
  /-- The end, with the checksum of the checksums of the blocks. -/
  | streamEnd (crc : UInt32)

/-- Reads a block or the end of a stream. -/
def readPart (level : Nat) : Reader Part := do
  if ← readSignature then return .block (← readBlock level)
  else return .streamEnd (UInt32.ofNat (← BitReader.highNumber 32))

/-- The checksum of the checksums of blocks, with that of one more block. -/
def combineCrc (combined crc : UInt32) : UInt32 := ((combined <<< 1) ||| (combined >>> 31)) ^^^ crc

/-- What the decoder keeps between two steps. -/
structure State where
  /-- The bits that are still to be read. -/
  bits : BitSource .highFirst
  /-- The level, once the header has been read. -/
  level : Option Nat
  /-- The checksum of the checksums of the blocks so far. -/
  combined : UInt32
  /-- The number of bytes of the whole input. -/
  size : Nat

/-- Reads a block or the end of a stream. That the count of the last run is missing shows only when
another byte is asked for. -/
def stepPart (s : State) (level : Nat) (output : ByteArray) : ByteArray × Continuation State :=
  match (readPart level).run s.bits with
  | .error fault => (output, .ofFault fault)
  | .ok (.streamEnd crc, _) =>
    (output, if crc = s.combined then .finished else .failed .corrupt)
  | .ok (.block block, bits) =>
    let before := output.size
    let (output, complete) := block.expand output
    if !complete then (output, .stuck .corrupt)
    else if highCrc32 (output.extract before output.size) = block.crc then
      (output, .again { s with bits, combined := combineCrc s.combined block.crc })
    else (output, .failed .corrupt)

/-- The size of the pieces in which the input is fetched. -/
def pieceSize : Nat := 8192

/-- The decoder of bzip2 streams. It puts out its bytes straight to the reader. Every step reads at
least one byte. -/
def decoder : StreamDecoder where
  State := State
  start input := ⟨.ofBytes .highFirst input.data.toList, none, 0, input.size⟩
  step s output :=
    match s.level with
    | some level => stepPart s level output
    | none =>
      match readHeader.run s.bits with
      | .error fault => (output, .ofFault fault)
      | .ok (level, bits) => (output, .again { s with bits, level := some level })
  steps input := input.size + 1
  room limit := limit
  fetched s := { s with bits := s.bits.fetched pieceSize s.size }

end Folio.Bzip2
