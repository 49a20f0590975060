import Folio.Proofs.Bzip2.Incremental
import Folio.Proofs.Deflate.Incremental

/-!
# Decoding with a limit agrees with decoding in full

A reader who expects a size lets a decoder put out one byte more at most. The answer is the one that
a reader would give who had taken all that the decoder hands out: the data if it has the size and
nothing is wrong with it, the size if there is more or less of it, and the damage if it shows before
there is too much.

## Main definitions

* `Expansion.Settles` — the answers to all expected sizes follow from a sequence of bytes

## Main results

* `StreamDecoder.Delivers.settles` — a decoder that is stopped answers as the whole sequence does
* `decompress_agrees_with_whole` — this holds of the decoders of both kinds of streams
* `exists_settles` — every payload has such a sequence with the decoders of this library
-/

namespace Folio

/-- What the whole sequence says about every size that a reader may expect. -/
structure Expansion.Settles (e : Expansion) (damage : StreamFault → Error)
    (answer : (size : Nat) → Except Error ByteArray) : Prop where
  /-- The data is given if the sequence ends without damage and has the size. -/
  ok_iff : ∀ size data, answer size = .ok data ↔
    e.fault = none ∧ e.output = data ∧ data.size = size
  /-- A longer sequence is one byte too long, whatever follows that byte. -/
  too_long : ∀ size, size < e.output.size → answer size = .error (.wrongSize size (size + 1))
  /-- A shorter sequence that ends without damage is too short. -/
  too_short : ∀ size, e.fault = none → e.output.size < size →
    answer size = .error (.wrongSize size e.output.size)
  /-- Damage is reported if it follows no more bytes than are expected. -/
  damaged_iff : ∀ size fault, answer size = .error (damage fault) ↔
    e.fault = some fault ∧ e.output.size ≤ size

namespace StreamDecoder

variable [Codec] {d : StreamDecoder} {payload : ByteArray} {e : Expansion}
  {damage : StreamFault → Error} {method : Method} {size : Nat}

omit [Codec] in
/-- What a decoder gives to a reader who asks for a byte at least. -/
theorem Delivers.toExcept_upTo (h : d.Delivers payload e) (n : Nat) :
    (d.upTo (n + 1) payload).toExcept damage = (e.take (n + 1)).toExcept damage := by
  have hfault := h.fault_upTo n
  have houtput := h.output_upTo n
  rw [Expansion.toExcept, Expansion.toExcept, hfault]
  cases hnone : (e.take (n + 1)).fault with
  | some fault => rfl
  | none => rw [houtput hnone]

theorem Delivers.decompress_of_lt (h : d.Delivers payload e)
    (hexpand : method.expand (size + 1) payload = (d.upTo (size + 1) payload).toExcept damage)
    (hlt : size < e.output.size) :
    decompress method payload size = .error (.wrongSize size (size + 1)) := by
  have hsize : (e.output.extract 0 (size + 1)).size = size + 1 := by
    rw [ByteArray.size_extract]
    omega
  rw [decompress, hexpand, h.toExcept_upTo, Expansion.take_of_le hlt]
  change (if (e.output.extract 0 (size + 1)).size = size then _ else _) = _
  rw [hsize, if_neg (by omega)]
  rfl

theorem Delivers.decompress_of_le (h : d.Delivers payload e)
    (hexpand : method.expand (size + 1) payload = (d.upTo (size + 1) payload).toExcept damage)
    (hle : e.output.size ≤ size) :
    decompress method payload size = match e.fault with
      | some fault => .error (damage fault)
      | none => if e.output.size = size then .ok e.output
        else .error (.wrongSize size e.output.size) := by
  rw [decompress, hexpand, h.toExcept_upTo, Expansion.take_of_lt (by omega), Expansion.toExcept]
  cases e.fault with
  | some fault => rfl
  | none => rfl

/-- A decoder that is stopped one byte behind the size that is expected answers as the whole
sequence does that it hands out. -/
theorem Delivers.settles (h : d.Delivers payload e)
    (hexpand : ∀ limit, method.expand limit payload = (d.upTo limit payload).toExcept damage)
    (hinjective : Function.Injective damage)
    (hdamage : ∀ fault expected actual, damage fault ≠ .wrongSize expected actual) :
    e.Settles damage (decompress method payload) where
  ok_iff size data := by
    rcases Nat.lt_or_ge size e.output.size with hlt | hle
    · rw [h.decompress_of_lt (hexpand _) hlt]
      simp only [reduceCtorEq, false_iff, not_and]
      rintro - rfl
      omega
    · rw [h.decompress_of_le (hexpand _) hle]
      cases hfault : e.fault with
      | some fault => simp
      | none =>
        dsimp only
        split
        · next hsize =>
          simp only [Except.ok.injEq, true_and]
          exact ⟨fun heq => ⟨heq, heq ▸ hsize⟩, And.left⟩
        · next hsize =>
          simp only [reduceCtorEq, true_and, false_iff, not_and]
          rintro rfl
          exact hsize
  too_long size hlt := h.decompress_of_lt (hexpand _) hlt
  too_short size hnone hlt := by
    rw [h.decompress_of_le (hexpand _) hlt.le, hnone]
    exact if_neg hlt.ne
  damaged_iff size fault := by
    rcases Nat.lt_or_ge size e.output.size with hlt | hle
    · rw [h.decompress_of_lt (hexpand _) hlt]
      simp only [Except.error.injEq]
      exact ⟨fun heq => absurd heq.symm (hdamage _ _ _), fun hsome => by omega⟩
    · rw [h.decompress_of_le (hexpand _) hle]
      cases hfault : e.fault with
      | some fault' => simp [hinjective.eq_iff, hle]
      | none =>
        dsimp only
        split
        · simp
        · simp only [Except.error.injEq, reduceCtorEq, false_and, iff_false]
          exact fun heq => hdamage _ _ _ heq.symm

end StreamDecoder

section Payloads

variable [Codec] {payload : ByteArray} {e : Expansion}

theorem settles_deflated (h : Codec.deflate.decoder.Delivers payload e) :
    e.Settles .deflate (decompress .deflated payload) :=
  h.settles (fun _ => rfl) (fun _ _ => Error.deflate.inj) (by simp)

theorem settles_bzip2 (h : Codec.bzip2.decoder.Delivers payload e) :
    e.Settles .bzip2 (decompress .bzip2 payload) :=
  h.settles (fun _ => rfl) (fun _ _ => Error.bzip2.inj) (by simp)

end Payloads

/-- Decoding with a limit agrees with decoding in full. What is stored is taken if it has the size
that is expected. Every other payload is a sequence of bytes to its decoder, and then the end of its
stream or damage. Whatever the sequence is, it decides the answers to all sizes that a reader may
expect. -/
theorem decompress_agrees_with_whole [Codec] (payload : ByteArray) :
    (∀ size, decompress .stored payload size =
      if payload.size = size then .ok payload else .error (.wrongSize size payload.size)) ∧
    (∀ e, Codec.deflate.decoder.Delivers payload e →
      e.Settles .deflate (decompress .deflated payload)) ∧
    ∀ e, Codec.bzip2.decoder.Delivers payload e →
      e.Settles .bzip2 (decompress .bzip2 payload) :=
  ⟨fun _ => rfl, fun _ => settles_deflated, fun _ => settles_bzip2⟩

/-- A deflate stream of the two bytes "ab", which is no bzip2 stream. -/
def plainStream : ByteArray := ⟨#[0x01, 0x02, 0x00, 0xFD, 0xFF, 0x61, 0x62]⟩

/-- Two bytes are expected to be one, two and three, and a reader who expects a bzip2 stream is told
of the damage. -/
theorem decompress_agrees_with_whole_plain :
    Deflate.decoder.Delivers plainStream ⟨"ab".toUTF8, none⟩ ∧
    Bzip2.decoder.Delivers plainStream ⟨.empty, some .badMagic⟩ ∧
    decompress .stored plainStream 2 = .error (.wrongSize 2 7) ∧
    decompress .deflated plainStream 1 = .error (.wrongSize 1 2) ∧
    decompress .deflated plainStream 2 = .ok "ab".toUTF8 ∧
    decompress .deflated plainStream 3 = .error (.wrongSize 3 2) ∧
    ∀ size, decompress .bzip2 plainStream size = .error (.bzip2 .badMagic) := by
  have hdeflate : Deflate.decoder.Delivers plainStream ⟨"ab".toUTF8, none⟩ :=
    Deflate.incremental.delivers_of_full (StreamDecoder.full_of_checked (by decide +kernel))
  have hbzip2 : Bzip2.decoder.Delivers plainStream ⟨.empty, some .badMagic⟩ := by
    have hshown : (Bzip2.decoder.upTo (0 + 1) plainStream).fault = some .badMagic := by
      decide +kernel
    have hprefix := (Bzip2.incremental.delivers_prefix hshown (by simp)).1
    have hempty : (Bzip2.decoder.full plainStream).output.extract 0 0 = .empty := by
      decide +kernel
    rwa [hempty] at hprefix
  obtain ⟨hstored, hinflated, hunpacked⟩ := decompress_agrees_with_whole plainStream
  have inflated := hinflated _ hdeflate
  have unpacked := hunpacked _ hbzip2
  refine ⟨hdeflate, hbzip2, hstored 2, inflated.too_long 1 (by decide), ?_,
    inflated.too_short 3 rfl (by decide), fun size => ?_⟩
  · exact (inflated.ok_iff 2 _).mpr ⟨rfl, rfl, by decide⟩
  · exact (unpacked.damaged_iff size .badMagic).mpr ⟨rfl, Nat.zero_le size⟩

/-- The decoders of this library are such a sequence to every payload, so there is always one that
decides the answers. -/
theorem exists_settles (payload : ByteArray) :
    (∃ e, Deflate.decoder.Delivers payload e ∧ Deflate.decoder.Begins payload e ∧
      e.Settles .deflate (decompress .deflated payload)) ∧
    ∃ e, Bzip2.decoder.Delivers payload e ∧ Bzip2.decoder.Begins payload e ∧
      e.Settles .bzip2 (decompress .bzip2 payload) := by
  obtain ⟨e, he, hbegins⟩ := Deflate.incremental.exists_delivers payload
  obtain ⟨e', he', hbegins'⟩ := Bzip2.incremental.exists_delivers payload
  exact ⟨⟨e, he, hbegins, settles_deflated he⟩, e', he', hbegins', settles_bzip2 he'⟩

end Folio
