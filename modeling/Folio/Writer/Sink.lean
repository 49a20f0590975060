import Folio.Error

/-!
# Where bytes are written to

A sink takes bytes until it refuses. When it refuses, a part of what was to be written may have
reached it.

## Main definitions

* `Sink` — a place that takes bytes
* `MemorySink` — a sink in memory, which may have a limit
-/

namespace Folio

/-- A place that takes bytes. Both operations say whether they succeed and give the sink
afterwards. -/
class Sink (σ : Type) where
  /-- Writes all of the bytes, or fails after a part of them. -/
  write : σ → ByteArray → Except IoError Unit × σ
  /-- Hands on what is held back. -/
  flush : σ → Except IoError Unit × σ

/-- A sink in memory. -/
structure MemorySink where
  /-- The bytes that it has taken. -/
  bytes : ByteArray
  /-- How many more bytes it takes, if there is a limit. -/
  room : Option Nat
  /-- How it refuses bytes beyond the limit. -/
  refusal : IoError
  /-- How it fails to hand on what it holds, if it does. -/
  flushFault : Option IoError

namespace MemorySink

/-- An empty sink without a limit. -/
def unbounded : MemorySink := ⟨.empty, none, .nothingWritten, none⟩

/-- An empty sink for so many bytes. -/
def bounded (room : Nat) (refusal : IoError) : MemorySink := ⟨.empty, some room, refusal, none⟩

/-- Writes as many of the bytes as there is room for. -/
def write (s : MemorySink) (bytes : ByteArray) : Except IoError Unit × MemorySink :=
  match s.room with
  | none => (.ok (), { s with bytes := s.bytes ++ bytes })
  | some room =>
    if bytes.size ≤ room then
      (.ok (), { s with bytes := s.bytes ++ bytes, room := some (room - bytes.size) })
    else
      (.error s.refusal, { s with bytes := s.bytes ++ bytes.extract 0 room, room := some 0 })

instance : Sink MemorySink where
  write := write
  flush s :=
    match s.flushFault with
    | none => (.ok (), s)
    | some fault => (.error fault, s)

end MemorySink

end Folio
