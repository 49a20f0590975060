import Folio.Codecs
import Folio.Proofs.Bzip2.Lawful
import Folio.Proofs.Deflate.Lawful
import Folio.Proofs.Stream.Expected

/-!
# The codecs of this library are lawful

What is proved about archives for all codecs whose decoders undo their encoders holds for the
encoders and decoders with which archives are written and read here.
-/

namespace Folio

/-- Decoding undoes encoding for both kinds of streams. -/
theorem codec_lawful : Codec.Lawful := ⟨Deflate.lawful, Bzip2.lawful⟩

theorem Deflate.decoder_sequential : Deflate.decoder.Sequential where
  step_extends := Deflate.step_extends
  -- The room is the least number of whole windows that holds the limit.
  le_room limit := by
    change limit ≤ (limit + 32768 - 1) / 32768 * 32768
    omega

theorem Bzip2.decoder_sequential : Bzip2.decoder.Sequential :=
  ⟨Bzip2.step_extends, fun _ => Nat.le_refl _⟩

/-- The decoders of both kinds of streams put out one sequence of bytes. -/
theorem codec_sequential : Codec.Sequential :=
  ⟨Deflate.decoder_sequential, Bzip2.decoder_sequential⟩

end Folio
