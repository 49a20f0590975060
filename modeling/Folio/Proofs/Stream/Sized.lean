import Folio.Proofs.Codecs
import Folio.Proofs.Stream.Bounded

/-!
# Data is read back at its size only

A payload is made at every level that its method has, and gives the data back to a reader who
expects its size. A reader who expects another size is refused, whether there is more or less than
it expects. It is told the size of what is stored, but a stream is not decoded further than one byte
behind what is expected.

## Main definitions

* `Method.Lacks` — a level that a method does not have
* `Codec.Delivers` — the streams of the encoders are the data to the decoders
* `Method.Delivers` — a payload is the data to a reader
* `Method.seen` — how much a reader sees of the data

## Main results

* `compress_eq_error_iff` — payloads are refused at the levels that a method lacks
* `delivers_of_compress` — a payload is the data that it was made for
* `decompress_of_delivers` — what a reader gets from a payload that is data to it
* `codec_delivers` — the encoders and decoders of this library keep this law
* `compress_sized` — what is compressed is read back at its size, and at no other
-/

namespace Folio

/-! ### Levels -/

namespace Method

/-- A level that a method does not have. Storing has no levels and takes all of them. -/
def Lacks : Method → UInt32 → Prop
  | stored, _ => False
  | deflated, level => 9 < level
  | bzip2, level => level = 0 ∨ 9 < level

instance (m : Method) (level : UInt32) : Decidable (m.Lacks level) :=
  match m with
  | stored => inferInstanceAs (Decidable False)
  | deflated => inferInstanceAs (Decidable (9 < level))
  | bzip2 => inferInstanceAs (Decidable (level = 0 ∨ 9 < level))

theorem not_accepts_iff_lacks (m : Method) (level : UInt32) :
    ¬ m.Accepts level ↔ m.Lacks level := by
  cases m with
  | stored => simp [Accepts, Lacks]
  | deflated => simp [Accepts, Lacks, UInt32.le_iff_toNat_le, UInt32.lt_iff_toNat_lt]
  | bzip2 =>
    simp [Accepts, Lacks, UInt32.le_iff_toNat_le, UInt32.lt_iff_toNat_lt, ← UInt32.toNat_inj]
    omega

theorem resolve?_eq_none_iff {m : Method} {requested : Option UInt32} :
    m.resolve? requested = none ↔ ∃ level, requested = some level ∧ m.Lacks level := by
  cases requested with
  | none => cases m <;> simp [resolve?]
  | some level =>
    have hlevel : m.resolve? (some level) = none ↔ ¬ m.Accepts level := by
      cases m with
      | stored => simp [resolve?, Accepts]
      | deflated => simp [resolve?]
      | bzip2 => simp [resolve?]
    rw [hlevel, not_accepts_iff_lacks]
    simp

end Method

section

variable [Codec] {method : Method} {level : Option UInt32} {data payload : ByteArray}

theorem compress_eq_error_iff_resolve? {error : Error} :
    compress method level data = .error error ↔
      method.resolve? level = none ∧ error = .invalidLevel method (level.getD 0) := by
  unfold compress
  split
  · next hlevel => simp [hlevel, eq_comm]
  · next hlevel => simp [hlevel]
  · next hlevel => simp [hlevel]
  · next hlevel => simp [hlevel]

/-- No payload is made at a level that the method lacks, and payloads are refused for no other
reason. -/
theorem compress_eq_error_iff {error : Error} :
    compress method level data = .error error ↔
      ∃ n, level = some n ∧ method.Lacks n ∧ error = .invalidLevel method n := by
  rw [compress_eq_error_iff_resolve?, Method.resolve?_eq_none_iff]
  constructor
  · rintro ⟨⟨n, rfl, hlacks⟩, rfl⟩
    exact ⟨n, rfl, hlacks, rfl⟩
  · rintro ⟨n, rfl, hlacks, rfl⟩
    exact ⟨⟨n, rfl, hlacks⟩, rfl⟩

/-- A payload is made at every level that the method has. -/
theorem exists_compress_eq_ok (h : ∀ n, level = some n → ¬ method.Lacks n) (data : ByteArray) :
    ∃ payload, compress method level data = .ok payload := by
  cases hresult : compress method level data with
  | ok payload => exact ⟨payload, rfl⟩
  | error error =>
    obtain ⟨n, hn, hlacks, -⟩ := compress_eq_error_iff.mp hresult
    exact absurd hlacks (h n hn)

end

/-! ### Sizes -/

/-- The stream that an encoder makes for data at a level is, to the decoder, the data and then the end
of the stream. -/
structure Codec.Delivers [Codec] : Prop where
  /-- The levels of deflate are 0 to 9. -/
  deflate : ∀ level data, level ≤ 9 →
    Codec.deflate.decoder.Delivers (Codec.deflate.encode level data) ⟨data, none⟩
  /-- The levels of bzip2 are 1 to 9. -/
  bzip2 : ∀ level data, 1 ≤ level → level ≤ 9 →
    Codec.bzip2.decoder.Delivers (Codec.bzip2.encode level data) ⟨data, none⟩

/-- A payload is the data to a reader, who then sees its end. -/
def Method.Delivers [Codec] (method : Method) (payload data : ByteArray) : Prop :=
  match method with
  | stored => payload = data
  | deflated => Codec.deflate.decoder.Delivers payload ⟨data, none⟩
  | bzip2 => Codec.bzip2.decoder.Delivers payload ⟨data, none⟩

/-- How much a reader sees of data when it expects a size. A decoder is stopped one byte behind
it. -/
def Method.seen (actual expected : Nat) : Method → Nat
  | stored => actual
  | deflated | bzip2 => min actual (expected + 1)

section

variable [Codec] {method : Method} {level : Option UInt32} {data payload : ByteArray}

/-- A payload is the data that it was made for. -/
theorem delivers_of_compress (law : Codec.Delivers) (h : compress method level data = .ok payload) :
    method.Delivers payload data := by
  rcases compress_cases h with ⟨rfl, rfl⟩ | ⟨n, hn, rfl, rfl⟩ | ⟨n, hpos, hn, rfl, rfl⟩
  · rfl
  · exact law.deflate n data hn
  · exact law.bzip2 n data hpos hn

/-- What a reader gets from a stream that ends without damage. -/
theorem StreamDecoder.Delivers.decompress_of_whole {d : StreamDecoder} {damage : StreamFault → Error}
    (h : d.Delivers payload ⟨data, none⟩) {size : Nat}
    (hexpand : method.expand (size + 1) payload = (d.upTo (size + 1) payload).toExcept damage) :
    decompress method payload size =
      if data.size = size then .ok data
      else .error (.wrongSize size (min data.size (size + 1))) := by
  rcases Nat.lt_or_ge size data.size with hlt | hle
  · rw [h.decompress_of_lt hexpand hlt, if_neg (by omega), Nat.min_eq_right hlt]
  · rw [h.decompress_of_le hexpand hle, Nat.min_eq_left (by omega)]

/-- A reader gets the data of a payload if it expects the size of the data. -/
theorem decompress_of_delivers (h : method.Delivers payload data) (size : Nat) :
    decompress method payload size =
      if data.size = size then .ok data
      else .error (.wrongSize size (method.seen data.size size)) := by
  cases method with
  | stored =>
    obtain rfl : payload = data := h
    rfl
  | deflated => exact StreamDecoder.Delivers.decompress_of_whole h rfl
  | bzip2 => exact StreamDecoder.Delivers.decompress_of_whole h rfl

end

/-- The streams of the encoders of this library are the data to its decoders. -/
theorem codec_delivers : Codec.Delivers where
  deflate level data hlevel :=
    Deflate.incremental.delivers_of_full
      (codec_lawful.deflate.full_encode level data (Nat.zero_le level) hlevel)
  bzip2 level data hpos hlevel :=
    Bzip2.incremental.delivers_of_full (codec_lawful.bzip2.full_encode level data hpos hlevel)

/-- Data is read back at its size only. Compressing fails if and only if the method lacks the level
that is asked for. Otherwise the payload gives the data to a reader who expects its size, and every
other size is refused, with the size of what the reader has seen. -/
theorem compress_sized [Codec] (law : Codec.Delivers) (method : Method) (level : Option UInt32)
    (data : ByteArray) :
    (∀ error, compress method level data = .error error ↔
      ∃ n, level = some n ∧ method.Lacks n ∧ error = .invalidLevel method n) ∧
    ((∀ n, level = some n → ¬ method.Lacks n) →
      ∃ payload, compress method level data = .ok payload ∧
        decompress method payload data.size = .ok data ∧
        ∀ size, size ≠ data.size → decompress method payload size =
          .error (.wrongSize size (method.seen data.size size))) := by
  refine ⟨fun error => compress_eq_error_iff, fun hhas => ?_⟩
  obtain ⟨payload, hpayload⟩ := exists_compress_eq_ok hhas data
  have hdelivers := delivers_of_compress law hpayload
  refine ⟨payload, hpayload, ?_, fun size hsize => ?_⟩
  · rw [decompress_of_delivers hdelivers, if_pos rfl]
  · rw [decompress_of_delivers hdelivers, if_neg hsize.symm]

/-- Five bytes are deflated at level 1 and expected to be two, four, five and six; bzip2 has no
level 0. -/
theorem compress_sized_hello :
    (∃ payload, compress .deflated (some 1) "hello".toUTF8 = .ok payload ∧
      decompress .deflated payload 5 = .ok "hello".toUTF8 ∧
      decompress .deflated payload 2 = .error (.wrongSize 2 3) ∧
      decompress .deflated payload 4 = .error (.wrongSize 4 5) ∧
      decompress .deflated payload 6 = .error (.wrongSize 6 5)) ∧
    compress .bzip2 (some 0) "hello".toUTF8 = .error (.invalidLevel .bzip2 0) := by
  obtain ⟨payload, hpayload, hread, hrefused⟩ :=
    (compress_sized codec_delivers .deflated (some 1) "hello".toUTF8).2 (by
      rintro n ⟨⟩
      decide)
  refine ⟨⟨payload, hpayload, hread, ?_, ?_, ?_⟩, ?_⟩
  · exact hrefused 2 (by decide)
  · exact hrefused 4 (by decide)
  · exact hrefused 6 (by decide)
  · exact ((compress_sized codec_delivers .bzip2 (some 0) "hello".toUTF8).1 _).mpr
      ⟨0, rfl, .inl rfl, rfl⟩

end Folio
