import Folio.Method
import Folio.Stream.Codec

/-!
# Payloads

What an archive holds for the data of an entry. A reader knows the size of the data beforehand and
never lets a decoder put out more than one byte beyond it.

## Main definitions

* `compress` — the payload for data, with a method at a level
* `Method.expand` — what comes out of a payload, up to a limit
* `decompress` — the data of a payload, if it has the expected size
-/

namespace Folio

variable [Codec]

/-- The payload for data, with a method at the level that is asked for. -/
def compress (method : Method) (level : Option UInt32) (data : ByteArray) :
    Except Error ByteArray :=
  match method.resolve? level, method with
  | none, _ => .error (.invalidLevel method (level.getD 0))
  | some _, .stored => .ok data
  | some level, .deflated => .ok (Codec.deflate.encode (level.getD 0).toNat data)
  | some level, .bzip2 => .ok (Codec.bzip2.encode (level.getD 0).toNat data)

/-- The output of a decoder that meets no damage. -/
def Expansion.toExcept (e : Expansion) (error : StreamFault → Error) : Except Error ByteArray :=
  match e.fault with
  | some fault => .error (error fault)
  | none => .ok e.output

/-- What comes out of a payload. A decoder may put out `limit` bytes. -/
def Method.expand (method : Method) (limit : Nat) (payload : ByteArray) :
    Except Error ByteArray :=
  match method with
  | .stored => .ok payload
  | .deflated => (Codec.deflate.decoder.upTo limit payload).toExcept .deflate
  | .bzip2 => (Codec.bzip2.decoder.upTo limit payload).toExcept .bzip2

/-- The data of a payload, if it has the expected size. -/
def decompress (method : Method) (payload : ByteArray) (size : Nat) : Except Error ByteArray := do
  let data ← method.expand (size + 1) payload
  if data.size = size then return data else throw (.wrongSize size data.size)

end Folio
