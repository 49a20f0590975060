import Folio.Bzip2.Encode
import Folio.Deflate.Encode
import Folio.Stream.Codec

/-!
# The codecs of this library

The encoders and decoders with which archives are written and read here.
-/

namespace Folio

/-- The encoders and decoders of this library. -/
instance : Codec where
  deflate := ⟨Deflate.encode, Deflate.decoder⟩
  bzip2 := ⟨Bzip2.encode, Bzip2.decoder⟩

end Folio
