import Folio.Bytes.LittleEndian
import Folio.Error

/-!
# Reading on from a place

A cursor is a place in a string of bytes, and a decoder is what reads a value from there and moves
on. All records of an archive are read by decoders that are put together from `Decoder.take`.

## Main definitions

* `Cursor` — a string of bytes and a place in it
* `Cursor.rest` — the bytes from the place on, for statements about decoders
* `Cursor.take?` — the next bytes, if there are enough
* `Decoder` — reads a value and moves on, or fails
* `Decoder.take`, `Decoder.word16`, `Decoder.word32` — decoders for bytes and words
-/

namespace Folio

/-- A place in a string of bytes. The place may lie behind the last byte. -/
structure Cursor where
  bytes : ByteArray
  /-- The number of bytes before the place. -/
  position : Nat

namespace Cursor

/-- The place before the first byte. -/
def start (bytes : ByteArray) : Cursor := ⟨bytes, 0⟩

/-- The place that is `n` bytes further on. -/
def advance (c : Cursor) (n : Nat) : Cursor := { c with position := c.position + n }

/-- The bytes from the place on. -/
def rest (c : Cursor) : List UInt8 := c.bytes.data.toList.drop c.position

/-- The next `n` bytes and the place after them, if so many are left. -/
def take? (c : Cursor) (n : Nat) : Option (List UInt8 × Cursor) :=
  if n ≤ c.bytes.size - c.position then
    some ((c.bytes.extract c.position (c.position + n)).data.toList, c.advance n)
  else none

@[simp] theorem bytes_advance (c : Cursor) (n : Nat) : (c.advance n).bytes = c.bytes := rfl

@[simp] theorem position_advance (c : Cursor) (n : Nat) :
    (c.advance n).position = c.position + n := rfl

theorem rest_advance (c : Cursor) (n : Nat) : (c.advance n).rest = c.rest.drop n := by
  simp [rest, advance, List.drop_drop]

/-- Reading bytes cuts them off the front of the rest, if the rest is long enough. -/
theorem take?_eq (c : Cursor) (n : Nat) :
    c.take? n = if n ≤ c.rest.length then some (c.rest.take n, c.advance n) else none := by
  simp [take?, rest, ByteArray.data_extract, List.extract_eq_take_drop]

end Cursor

/-- Reads a value from a place and moves on, or fails. -/
abbrev Decoder (α : Type) := StateT Cursor (Except Error) α

namespace Decoder

/-- Reads exactly `n` bytes. -/
def take (n : Nat) : Decoder (List UInt8) := fun c =>
  match c.take? n with
  | some read => .ok read
  | none => .error (.io .unexpectedEnd)

/-- Reads a 16-bit word. -/
def word16 : Decoder UInt16 := do
  match ← take 2 with
  | [b₀, b₁] => pure (ofLe16 b₀ b₁)
  | _ => throw (.io .unexpectedEnd)

/-- Reads a 32-bit word. -/
def word32 : Decoder UInt32 := do
  match ← take 4 with
  | [b₀, b₁, b₂, b₃] => pure (ofLe32 b₀ b₁ b₂ b₃)
  | _ => throw (.io .unexpectedEnd)

/-- Reads a word and fails unless it is the given signature. -/
def signature (expected : UInt32) (fault : UInt32 → FormatError) : Decoder Unit := do
  let found ← word32
  if found = expected then pure () else throw (.invalidFormat (fault found))

end Decoder

end Folio
