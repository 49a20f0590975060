import Folio.Error

/-!
# Strings of bits

Compressed streams are strings of bits that are packed into bytes, from the low bit up in deflate
and from the high bit down in bzip2.

## Main definitions

* `BitOrder` — in which order a byte holds its bits
* `BitOrder.unpack`, `BitOrder.pack` — from bytes to bits and back
* `BitSource` — the bits that are still to be read
* `BitReader` — reads a value off the front of the bits, or fails
* `lowBits`, `highBits` — a number as a string of bits, from either end
-/

namespace Folio

/-- In which order a byte holds its bits. -/
inductive BitOrder where
  /-- The first bit is the low one. -/
  | lowFirst
  /-- The first bit is the high one. -/
  | highFirst
deriving DecidableEq, Repr

/-- The `width` low bits of a number, the lowest first. -/
def lowBits : (width n : Nat) → List Bool
  | 0, _ => []
  | width + 1, n => (n % 2 == 1) :: lowBits width (n / 2)

/-- The `width` low bits of a number, the highest first. -/
def highBits (width n : Nat) : List Bool := (lowBits width n).reverse

/-- The number whose bits are given from the lowest on. -/
def ofLowBits : List Bool → Nat
  | [] => 0
  | b :: rest => b.toNat + 2 * ofLowBits rest

namespace BitOrder

/-- The bits of a byte. -/
def unpack : BitOrder → UInt8 → List Bool
  | lowFirst, byte => lowBits 8 byte.toNat
  | highFirst, byte => highBits 8 byte.toNat

/-- The byte with the given eight bits. -/
def byte : BitOrder → List Bool → UInt8
  | lowFirst, bits => UInt8.ofNat (ofLowBits bits)
  | highFirst, bits => UInt8.ofNat (ofLowBits bits.reverse)

/-- Adds the bytes with the given bits. The last byte is filled up with zeros. -/
def packOnto (order : BitOrder) (bytes : ByteArray) : List Bool → ByteArray
  | [] => bytes
  | b₀ :: b₁ :: b₂ :: b₃ :: b₄ :: b₅ :: b₆ :: b₇ :: rest =>
    order.packOnto (bytes.push (order.byte [b₀, b₁, b₂, b₃, b₄, b₅, b₆, b₇])) rest
  | few => bytes.push (order.byte (few ++ List.replicate (8 - few.length) false))

/-- The bytes with the given bits. The last byte is filled up with zeros. -/
def pack (order : BitOrder) (bits : List Bool) : ByteArray := order.packOnto .empty bits

end BitOrder

/-- The bits that are still to be read: what is left of a byte that has been begun, and the bytes
after it. -/
structure BitSource (order : BitOrder) where
  /-- What is left of the byte that has been begun. -/
  pending : List Bool
  /-- The bytes after it. -/
  bytes : List UInt8

namespace BitSource

variable {order : BitOrder}

/-- All bits of a string of bytes. -/
def ofBytes (order : BitOrder) (bytes : List UInt8) : BitSource order := ⟨[], bytes⟩

/-- The bits one after another. -/
def toList (s : BitSource order) : List Bool := s.pending ++ s.bytes.flatMap order.unpack

/-- The first bit and the bits after it. -/
def next? : BitSource order → Option (Bool × BitSource order)
  | ⟨b :: pending, bytes⟩ => some (b, ⟨pending, bytes⟩)
  | ⟨[], byte :: bytes⟩ =>
    match order.unpack byte with
    | b :: pending => some (b, ⟨pending, bytes⟩)
    | [] => none
  | ⟨[], []⟩ => none

/-- The bits from the next full byte on. -/
def alignToByte (s : BitSource order) : BitSource order := ⟨[], s.bytes⟩

/-- The bits up to the end of the piece of input that has been begun, where the input has `total`
bytes and comes in pieces of the given size. -/
def fetched (s : BitSource order) (piece total : Nat) : BitSource order :=
  let begun := (total - s.bytes.length) % piece
  { s with bytes := s.bytes.take ((piece - begun) % piece) }

/-- An upper bound for the number of bits. -/
def bound (s : BitSource order) : Nat := 8 * (s.bytes.length + 1)

end BitSource

/-- Reads a value off the front of the bits, or fails. -/
abbrev BitReader (order : BitOrder) (α : Type) := StateT (BitSource order) (Except StreamFault) α

namespace BitReader

variable {order : BitOrder}

/-- Reads one bit. -/
def bit : BitReader order Bool := fun s =>
  match s.next? with
  | some read => .ok read
  | none => .error .truncated

/-- Reads a number of the given width whose low bits come first. -/
def lowNumber : (width : Nat) → BitReader order Nat
  | 0 => pure 0
  | width + 1 => do
    let b ← bit
    let more ← lowNumber width
    return b.toNat + 2 * more

/-- Reads a number of the given width whose high bits come first, behind the bits of `read`. -/
def highNumberAfter : (width read : Nat) → BitReader order Nat
  | 0, read => pure read
  | width + 1, read => do
    let b ← bit
    highNumberAfter width (2 * read + b.toNat)

/-- Reads a number of the given width whose high bits come first. -/
def highNumber (width : Nat) : BitReader order Nat := highNumberAfter width 0

/-- Reads `n` values behind those in `read`, which holds the last one first. -/
def timesAfter {α : Type} (reader : BitReader order α) :
    (n : Nat) → (read : List α) → BitReader order (List α)
  | 0, read => pure read.reverse
  | n + 1, read => do
    let value ← reader
    timesAfter reader n (value :: read)

/-- Reads `n` values, one after another. -/
def times {α : Type} (reader : BitReader order α) (n : Nat) : BitReader order (List α) :=
  timesAfter reader n []

/-- Fails because the stream holds what no encoder writes. -/
def corrupt {α : Type} : BitReader order α := throw .corrupt

end BitReader

end Folio
