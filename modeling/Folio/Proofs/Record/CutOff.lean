import Folio.Proofs.Record.Exact

/-!
# Records that are cut off

What a decoder says of bytes that are no record. A header with another signature is none at all. One
with the right signature can only be too short, since its fields may hold anything: the bytes end
before the header does that they begin. Fewer bytes than a signature are taken for such a header
whatever they are.

## Main definitions

* `Decoder.Needs` — a decoder that fails only for lack of bytes
* `Decoder.Signed` — a decoder of what follows a signature
* `CutOff` — bytes that end before the record does that they begin

## Main results

* `Decoder.Needs.bind` — such decoders, one after another
* `Decoder.Signed.error` — how a record with a signature is refused
* `LocalHeader.run_decode_unexpectedEnd_iff`, `CentralHeader.run_decode_unexpectedEnd_iff` — where a
  header is cut off
-/

namespace Folio

namespace Decoder

variable {α β : Type} {d : Decoder α} {f : α → Decoder β} {n m : Nat}

/-! ### Decoders that need bytes -/

/-- The decoder fails only for lack of bytes, and `n` of them are always enough. -/
structure Needs (d : Decoder α) (n : Nat) : Prop where
  /-- It succeeds on so many bytes, and takes no more of them. -/
  enough : ∀ c : Cursor, n ≤ c.rest.length →
    ∃ x c', d.run c = .ok (x, c') ∧ c.rest.length ≤ c'.rest.length + n
  /-- It fails in one way only. -/
  fails : ∀ c error, d.run c = .error error → error = .io .unexpectedEnd

theorem Needs.mono (h : d.Needs n) (hle : n ≤ m) : d.Needs m where
  enough c hlength := by
    obtain ⟨x, c', hrun, hrest⟩ := h.enough c (hle.trans hlength)
    exact ⟨x, c', hrun, by omega⟩
  fails := h.fails

theorem Needs.pure (x : α) : Needs (pure x) 0 where
  enough c _ := ⟨x, c, rfl, Nat.le_refl _⟩
  fails _ _ h := by cases h

theorem Needs.bind (hd : d.Needs n) (hf : ∀ x, (f x).Needs m) : (d >>= f).Needs (n + m) where
  enough c hlength := by
    obtain ⟨x, c₁, hfirst, h₁⟩ := hd.enough c (by omega)
    obtain ⟨y, c₂, hsecond, h₂⟩ := (hf x).enough c₁ (by omega)
    exact ⟨y, c₂, (run_bind_of_ok hfirst).trans hsecond, by omega⟩
  fails c error h := by
    cases hfirst : d.run c with
    | error error' =>
      rw [run_bind_of_error hfirst] at h
      obtain rfl := Except.error.inj h
      exact hd.fails c _ hfirst
    | ok read =>
      rw [run_bind_of_ok hfirst] at h
      exact (hf read.1).fails read.2 error h

theorem take_needs (n : Nat) : (take n).Needs n where
  enough c hlength := by
    refine ⟨_, _, by rw [run_take, if_pos hlength], ?_⟩
    rw [Cursor.rest_advance, List.length_drop]
    omega
  fails c error h := by
    rw [run_take] at h
    split at h
    · cases h
    · exact (Except.error.inj h).symm

/-- A length field tells at most as much as it can hold. -/
theorem take_needs_maxLength (w : UInt16) : (take w.toNat).Needs maxLength :=
  (take_needs w.toNat).mono (toNat_le_maxLength w)

theorem run_word16 (c : Cursor) : word16.run c =
    match c.rest with
    | b₀ :: b₁ :: _ => .ok (ofLe16 b₀ b₁, c.advance 2)
    | _ => .error (.io .unexpectedEnd) := by
  rw [word16, run_bind, run_take]
  match c.rest with
  | [] | [_] => rfl
  | b₀ :: b₁ :: _ =>
    rw [if_pos (by simp)]
    rfl

theorem run_word32 (c : Cursor) : word32.run c =
    match c.rest with
    | b₀ :: b₁ :: b₂ :: b₃ :: _ => .ok (ofLe32 b₀ b₁ b₂ b₃, c.advance 4)
    | _ => .error (.io .unexpectedEnd) := by
  rw [word32, run_bind, run_take]
  match c.rest with
  | [] | [_] | [_, _] | [_, _, _] => rfl
  | b₀ :: b₁ :: b₂ :: b₃ :: _ =>
    rw [if_pos (by simp)]
    rfl

theorem word16_needs : word16.Needs 2 where
  enough c hlength := by
    rw [run_word16]
    match hrest : c.rest with
    | [] | [_] => simp [hrest] at hlength
    | b₀ :: b₁ :: _ =>
      refine ⟨_, _, rfl, ?_⟩
      rw [Cursor.rest_advance, List.length_drop, hrest]
      omega
  fails c error h := by
    rw [run_word16] at h
    split at h
    · cases h
    · exact (Except.error.inj h).symm

theorem word32_needs : word32.Needs 4 where
  enough c hlength := by
    rw [run_word32]
    match hrest : c.rest with
    | [] | [_] | [_, _] | [_, _, _] => simp [hrest] at hlength
    | b₀ :: b₁ :: b₂ :: b₃ :: _ =>
      refine ⟨_, _, rfl, ?_⟩
      rw [Cursor.rest_advance, List.length_drop, hrest]
      omega
  fails c error h := by
    rw [run_word32] at h
    split at h
    · cases h
    · exact (Except.error.inj h).symm

end Decoder

/-! ### Records with a signature -/

/-- The bytes end before the record does that they begin, or before a signature does. -/
def CutOff {α : Type} (Fits : α → Prop) (encode : α → List UInt8) (l : List UInt8) : Prop :=
  l.length < 4 ∨ ∃ x, Fits x ∧ l <+: encode x ∧ l ≠ encode x

namespace Decoder

variable {α : Type} {d : Decoder α} {Fits : α → Prop} {encode : α → List UInt8}
  {expected : UInt32} {fault : UInt32 → FormatError} {c : Cursor}

/-- The decoder reads a signature, and behind it what can only be too short. -/
def Signed (d : Decoder α) (expected : UInt32) (fault : UInt32 → FormatError) : Prop :=
  ∃ (body : Decoder α) (n : Nat), d = (signature expected fault >>= fun _ => body) ∧ body.Needs n

theorem run_signature (expected : UInt32) (fault : UInt32 → FormatError) (c : Cursor) :
    (signature expected fault).run c =
      match c.rest with
      | b₀ :: b₁ :: b₂ :: b₃ :: _ =>
        if ofLe32 b₀ b₁ b₂ b₃ = expected then .ok ((), c.advance 4)
        else .error (.invalidFormat (fault (ofLe32 b₀ b₁ b₂ b₃)))
      | _ => .error (.io .unexpectedEnd) := by
  rw [signature, run_bind, run_word32]
  match c.rest with
  | [] | [_] | [_, _] | [_, _, _] => rfl
  | b₀ :: b₁ :: b₂ :: b₃ :: _ =>
    simp only [Except.bind]
    split <;> rfl

/-- What becomes of the signature: it is too short, it stands there, or another word does. -/
theorem signature_cases (expected : UInt32) (fault : UInt32 → FormatError) (c : Cursor) :
    (c.rest.length < 4 ∧ (signature expected fault).run c = .error (.io .unexpectedEnd)) ∨
    (le32 expected <+: c.rest ∧ (signature expected fault).run c = .ok ((), c.advance 4)) ∨
    4 ≤ c.rest.length ∧
      ∃ found, (signature expected fault).run c = .error (.invalidFormat (fault found)) := by
  rw [run_signature]
  match c.rest with
  | [] | [_] | [_, _] | [_, _, _] => exact .inl ⟨by simp, rfl⟩
  | b₀ :: b₁ :: b₂ :: b₃ :: rest =>
    by_cases h : ofLe32 b₀ b₁ b₂ b₃ = expected
    · refine .inr (.inl ⟨?_, if_pos h⟩)
      rw [← h, le32_ofLe32]
      exact ⟨rest, rfl⟩
    · exact .inr (.inr ⟨by simp, _, if_neg h⟩)

/-- A record with a signature is refused for another signature, or for lack of bytes. -/
theorem Signed.error (hd : d.Signed expected fault) {error : Error} (h : d.run c = .error error) :
    (∃ found, error = .invalidFormat (fault found)) ∨ error = .io .unexpectedEnd := by
  obtain ⟨body, n, rfl, needs⟩ := hd
  obtain ⟨-, hrun⟩ | ⟨-, hrun⟩ | ⟨-, found, hrun⟩ := signature_cases expected fault c
  · rw [run_bind_of_error hrun] at h
    exact .inr (Except.error.inj h).symm
  · rw [run_bind_of_ok hrun] at h
    exact .inr (needs.fails _ _ h)
  · rw [run_bind_of_error hrun] at h
    exact .inl ⟨found, (Except.error.inj h).symm⟩

/-- Behind its signature, a record can be read from any bytes if there are enough of them. -/
theorem Signed.exists_enough (hd : d.Signed expected fault) : ∃ n, ∀ c : Cursor,
    le32 expected <+: c.rest → n ≤ c.rest.length → ∃ x c', d.run c = .ok (x, c') := by
  obtain ⟨body, n, rfl, needs⟩ := hd
  refine ⟨4 + n, fun c hsignature hlength => ?_⟩
  have hrun := ((signature_exact expected fault).reads () _ rfl).whole c hsignature
  obtain ⟨x, c', hbody, -⟩ := needs.enough (c.advance (le32 expected).length) (by
    rw [Cursor.rest_advance, List.length_drop, length_le32]
    omega)
  exact ⟨x, c', (run_bind_of_ok hrun).trans hbody⟩

/-- A record with a signature is refused for lack of bytes exactly if they are cut off. -/
theorem Signed.unexpectedEnd_iff (hd : d.Signed expected fault)
    (exact : d.Exact fun x bs => Fits x ∧ bs = encode x) :
    d.run c = .error (.io .unexpectedEnd) ↔ CutOff Fits encode c.rest := by
  obtain ⟨n, enough⟩ := hd.exists_enough
  obtain ⟨body, -, signed, -⟩ := hd
  constructor
  · intro h
    obtain ⟨hshort, -⟩ | ⟨hsignature, -⟩ | ⟨-, found, hrun⟩ := signature_cases expected fault c
    · exact .inl hshort
    · -- With enough bytes behind them, the bytes are read as a record, which ends among those.
      obtain ⟨x, c', hrun⟩ := enough (.start (c.rest ++ List.replicate n 0).toByteArray)
        (by rw [Cursor.rest_start]; exact hsignature.trans (List.prefix_append ..))
        (by rw [Cursor.rest_start, List.length_append, List.length_replicate]; omega)
      obtain ⟨_, ⟨fits, rfl⟩, hx, -⟩ := exact.only _ _ _ hrun
      rw [Cursor.rest_start] at hx
      have reads := exact.reads x _ ⟨fits, rfl⟩
      have hnot : ¬ encode x <+: c.rest := fun hx => by
        rw [reads.whole c hx] at h
        cases h
      obtain hx | hx := List.prefix_or_prefix_of_prefix hx (List.prefix_append ..)
      · exact absurd hx hnot
      · exact .inr ⟨x, fits, hx, fun heq => hnot (heq ▸ List.prefix_rfl)⟩
    · rw [signed, run_bind_of_error hrun] at h
      cases h
  · rintro (hshort | ⟨x, fits, hx, hne⟩)
    · obtain ⟨-, hrun⟩ | ⟨hsignature, -⟩ | ⟨hlength, -⟩ := signature_cases expected fault c
      · rw [signed, run_bind_of_error hrun]
      · have := hsignature.length_le
        rw [length_le32] at this
        omega
      · omega
    · exact (exact.reads x _ ⟨fits, rfl⟩).short c hx hne

end Decoder

/-! ### Headers -/

open Decoder

theorem EntryFields.decode_needs : EntryFields.decode.Needs 22 :=
  word16_needs.bind fun _ => word16_needs.bind fun _ => word16_needs.bind fun _ =>
    word16_needs.bind fun _ => word16_needs.bind fun _ => word32_needs.bind fun _ =>
    word32_needs.bind fun _ => word32_needs.bind fun _ => .pure _

namespace LocalHeader

theorem decode_signed : decode.Signed signature .localSignature :=
  ⟨_, _, rfl, EntryFields.decode_needs.bind fun _ => word16_needs.bind fun nameLength =>
    word16_needs.bind fun extraLength => (take_needs_maxLength nameLength).bind fun _ =>
    (take_needs_maxLength extraLength).bind fun _ => .pure _⟩

/-- A local header is refused for lack of bytes exactly if they are cut off. -/
theorem run_decode_unexpectedEnd_iff {c : Cursor} :
    decode.run c = .error (.io .unexpectedEnd) ↔ CutOff Fits encode c.rest :=
  decode_signed.unexpectedEnd_iff decode_exact

end LocalHeader

namespace CentralHeader

theorem decode_signed : decode.Signed signature .centralSignature :=
  ⟨_, _, rfl, word16_needs.bind fun _ => EntryFields.decode_needs.bind fun _ =>
    word16_needs.bind fun nameLength => word16_needs.bind fun extraLength =>
    word16_needs.bind fun commentLength => word16_needs.bind fun _ => word16_needs.bind fun _ =>
    word32_needs.bind fun _ => word32_needs.bind fun _ =>
    (take_needs_maxLength nameLength).bind fun _ => (take_needs_maxLength extraLength).bind fun _ =>
    (take_needs_maxLength commentLength).bind fun _ => .pure _⟩

/-- A central header is refused for lack of bytes exactly if they are cut off. -/
theorem run_decode_unexpectedEnd_iff {c : Cursor} :
    decode.run c = .error (.io .unexpectedEnd) ↔ CutOff Fits encode c.rest :=
  decode_signed.unexpectedEnd_iff decode_exact

end CentralHeader

end Folio
