import Folio.Stream.Expansion

/-!
# Codecs

Which streams an encoder makes is its own affair: it may look for repetitions as long as it likes.
What reads and writes archives only asks for an encoder and a decoder of each kind of stream, and
rests on a single law about them.

## Main definitions

* `StreamCodec` — an encoder and a decoder for one kind of stream
* `StreamCodec.Lawful` — decoding undoes encoding
* `Codec` — the codecs of the methods that compress
* `Codec.Lawful` — decoding undoes encoding for each of them
-/

namespace Folio

/-- An encoder and a decoder for one kind of compressed stream. -/
structure StreamCodec where
  /-- The stream for data at a level. -/
  encode : (level : Nat) → ByteArray → ByteArray
  /-- The decoder of such streams. -/
  decoder : StreamDecoder

/-- Decoding undoes encoding at the levels from `least` up to 9. -/
structure StreamCodec.Lawful (c : StreamCodec) (least : Nat) : Prop where
  /-- A step of the decoder adds to the output and takes nothing back. -/
  step_extends : ∀ state output,
    output.data.toList <+: (c.decoder.step state output).1.data.toList
  /-- All that comes out of an encoder's stream is the data, and then the stream ends. -/
  full_encode : ∀ level data, least ≤ level → level ≤ 9 →
    c.decoder.full (c.encode level data) = ⟨data, none⟩

/-- The codecs of the methods that compress. -/
class Codec where
  /-- The codec of deflate streams. -/
  deflate : StreamCodec
  /-- The codec of bzip2 streams. -/
  bzip2 : StreamCodec

/-- Decoding undoes encoding for both kinds of streams. -/
structure Codec.Lawful [Codec] : Prop where
  /-- The levels of deflate start at 0. -/
  deflate : Codec.deflate.Lawful 0
  /-- The levels of bzip2 start at 1. -/
  bzip2 : Codec.bzip2.Lawful 1

end Folio
