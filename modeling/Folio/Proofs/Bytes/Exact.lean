import Mathlib.Data.List.Infix
import Folio.Bytes.Cursor

/-!
# Decoders that read exactly what is written

A format says which bytes spell which value. A decoder is exact for it if it reads a value from the
bytes that spell it, wherever they stand, and reads nothing else. Exact decoders compose, so the
decoder of a record is exact for the bytes of its fields, one after another.

## Main definitions

* `Decoder.Reads` — a decoder reads a value from given bytes
* `Decoder.Exact` — a decoder reads a value from the bytes that spell it, and from no others

## Main results

* `Decoder.Exact.bind` — exact decoders, one after another, are exact
* `Decoder.Exact.run_eq_ok_iff` — the runs of an exact decoder that succeed
* `Decoder.take_exact`, `Decoder.word16_exact`, `Decoder.word32_exact`, `Decoder.signature_exact`
-/

namespace Folio

/-- Two computations one after another succeed if both do. -/
theorem bind_eq_ok_iff {ε α β : Type} {x : Except ε α} {f : α → Except ε β} {b : β} :
    (x >>= f) = .ok b ↔ ∃ a, x = .ok a ∧ f a = .ok b := by
  cases x with
  | error error => simp [bind, Except.bind]
  | ok a => simp [bind, Except.bind]

/-- What follows a check succeeds only if the check passes. -/
theorem unless_eq_ok_iff {ε α : Type} {p : Prop} [Decidable p] {error : ε} {x : Except ε α}
    {r : α} : (if p then throw error >>= fun _ : PUnit => x else x) = .ok r ↔ ¬ p ∧ x = .ok r := by
  by_cases h : p
  · rw [if_pos h]
    simp [h, throw, throwThe, MonadExceptOf.throw, bind, Except.bind]
  · rw [if_neg h]
    simp [h]

/-- A result that is given after a last check. -/
theorem checked_eq_ok_iff {α : Type} {p : Prop} [Decidable p] {error : Error} {x r : α} :
    (if p then pure x else throw error : Except Error α) = .ok r ↔ p ∧ x = r := by
  by_cases h : p
  · rw [if_pos h]
    simp [h, pure, Except.pure]
  · rw [if_neg h]
    simp [h, throw, throwThe, MonadExceptOf.throw]

/-- Two computations one after another fail if the first one does, or the second one behind it. -/
theorem bind_eq_error_iff {ε α β : Type} {x : Except ε α} {f : α → Except ε β} {error : ε} :
    (x >>= f) = .error error ↔ x = .error error ∨ ∃ a, x = .ok a ∧ f a = .error error := by
  cases x with
  | error error' => simp [bind, Except.bind]
  | ok a => simp [bind, Except.bind]

/-- A failure at a check, or behind it. -/
theorem unless_eq_error_iff {ε α : Type} {p : Prop} [Decidable p] {error error' : ε}
    {x : Except ε α} : (if p then throw error >>= fun _ : PUnit => x else x) = .error error' ↔
      p ∧ error = error' ∨ ¬ p ∧ x = .error error' := by
  by_cases h : p
  · rw [if_pos h]
    simp [h, throw, throwThe, MonadExceptOf.throw, bind, Except.bind]
  · rw [if_neg h]
    simp [h]

/-- A failure at a last check. -/
theorem checked_eq_error_iff {α : Type} {p : Prop} [Decidable p] {error error' : Error} {x : α} :
    (if p then pure x else throw error : Except Error α) = .error error' ↔
      ¬ p ∧ error = error' := by
  by_cases h : p
  · rw [if_pos h]
    simp [h, pure, Except.pure]
  · rw [if_neg h]
    simp [h, throw, throwThe, MonadExceptOf.throw]

theorem Cursor.advance_advance (c : Cursor) (m n : Nat) :
    (c.advance m).advance n = c.advance (m + n) := by
  simp [Cursor.advance, Nat.add_assoc]

theorem Cursor.rest_start (l : List UInt8) : (Cursor.start l.toByteArray).rest = l := by
  simp [Cursor.start, Cursor.rest]

namespace Decoder

variable {α β : Type} {d : Decoder α} {f : α → Decoder β} {bs bs' : List UInt8} {x : α} {y : β}
  {c c' : Cursor}

/-! ### Running decoders -/

theorem run_bind (d : Decoder α) (f : α → Decoder β) (c : Cursor) :
    (d >>= f).run c = (d.run c).bind fun (x, c') => (f x).run c' := rfl

theorem run_bind_of_ok (h : d.run c = .ok (x, c')) : (d >>= f).run c = (f x).run c' := by
  rw [run_bind, h]
  rfl

theorem run_bind_of_error {error : Error} (h : d.run c = .error error) :
    (d >>= f).run c = .error error := by
  rw [run_bind, h]
  rfl

/-- A decoder followed by another succeeds only if both do. -/
theorem run_bind_eq_ok {r : β × Cursor} (h : (d >>= f).run c = .ok r) :
    ∃ x c', d.run c = .ok (x, c') ∧ (f x).run c' = .ok r := by
  obtain ⟨⟨x, c'⟩, hd, hf⟩ := bind_eq_ok_iff.mp h
  exact ⟨x, c', hd, hf⟩

/-! ### Reading given bytes -/

/-- The decoder reads the value from exactly these bytes: it succeeds wherever they stand, and
misses bytes where they are cut short. -/
structure Reads (d : Decoder α) (bs : List UInt8) (x : α) : Prop where
  /-- It moves on behind the bytes. -/
  whole : ∀ c : Cursor, bs <+: c.rest → d.run c = .ok (x, c.advance bs.length)
  /-- It fails if only a part of them is left. -/
  short : ∀ c : Cursor, c.rest <+: bs → c.rest ≠ bs → d.run c = .error (.io .unexpectedEnd)

theorem Reads.pure (x : α) : Reads (pure x) [] x where
  whole _ _ := rfl
  short _ h hne := absurd (List.prefix_nil.mp h) hne

theorem Reads.bind (hd : d.Reads bs x) (hf : (f x).Reads bs' y) :
    (d >>= f).Reads (bs ++ bs') y where
  whole c h := by
    have first := hd.whole c ((List.prefix_append bs bs').trans h)
    -- The second decoder starts where the first one stops.
    have second := hf.whole (c.advance bs.length) (by
      rw [Cursor.rest_advance]
      simpa using h.drop bs.length)
    rw [run_bind_of_ok first, second, List.length_append, Cursor.advance_advance]
  short c h hne := by
    -- The rest ends within the first bytes, or holds all of them and ends within the others.
    by_cases hlong : bs.length ≤ c.rest.length
    · obtain ⟨left, hleft⟩ := List.prefix_of_prefix_length_le (List.prefix_append bs bs') h hlong
      have first := hd.whole c ⟨left, hleft⟩
      have hrest : (c.advance bs.length).rest = left := by
        rw [Cursor.rest_advance, ← hleft, List.drop_left]
      rw [run_bind_of_ok first]
      refine hf.short _ ?_ ?_
      · rw [hrest]
        exact (List.prefix_append_right_inj bs).mp (hleft ▸ h)
      · rw [hrest]
        rintro rfl
        exact hne hleft.symm
    · have hpre := List.prefix_of_prefix_length_le h (List.prefix_append bs bs') (by omega)
      refine run_bind_of_error (hd.short c hpre ?_)
      rintro heq
      exact hlong (heq ▸ Nat.le_refl _)

/-! ### Exact decoders -/

/-- The decoder reads a value from the bytes that spell it, and from no others. -/
structure Exact (d : Decoder α) (Spells : α → List UInt8 → Prop) : Prop where
  /-- It reads all that is spelled. -/
  reads : ∀ x bs, Spells x bs → d.Reads bs x
  /-- It reads nothing else. -/
  only : ∀ c x c', d.run c = .ok (x, c') →
    ∃ bs, Spells x bs ∧ bs <+: c.rest ∧ c' = c.advance bs.length

variable {P Q : α → List UInt8 → Prop}

theorem Exact.congr (hd : d.Exact P) (h : ∀ x bs, P x bs ↔ Q x bs) : d.Exact Q where
  reads x bs hq := hd.reads x bs ((h x bs).mpr hq)
  only c x c' hrun := by
    obtain ⟨bs, hp, hpre⟩ := hd.only c x c' hrun
    exact ⟨bs, (h x bs).mp hp, hpre⟩

theorem Exact.pure (x : α) : Exact (pure x) fun y bs => y = x ∧ bs = [] where
  reads := by
    rintro y _ ⟨rfl, rfl⟩
    exact .pure y
  only := by
    rintro c _ _ ⟨⟩
    exact ⟨[], ⟨rfl, rfl⟩, List.nil_prefix, rfl⟩

theorem Exact.bind {R : α → β → List UInt8 → Prop} (hd : d.Exact P)
    (hf : ∀ x, (f x).Exact (R x)) :
    (d >>= f).Exact fun y bs => ∃ x b₁ b₂, P x b₁ ∧ R x y b₂ ∧ bs = b₁ ++ b₂ where
  reads := by
    rintro y _ ⟨x, b₁, b₂, hp, hr, rfl⟩
    exact (hd.reads x b₁ hp).bind ((hf x).reads y b₂ hr)
  only c y c'' hrun := by
    obtain ⟨x, c', hfirst, hsecond⟩ := run_bind_eq_ok hrun
    obtain ⟨b₁, hp, hpre₁, rfl⟩ := hd.only c x c' hfirst
    obtain ⟨b₂, hr, hpre₂, rfl⟩ := (hf x).only _ y c'' hsecond
    refine ⟨b₁ ++ b₂, ⟨x, b₁, b₂, hp, hr, rfl⟩, ?_, ?_⟩
    · obtain ⟨left, hleft⟩ := hpre₁
      rw [Cursor.rest_advance, ← hleft, List.drop_left] at hpre₂
      rw [← hleft]
      exact (List.prefix_append_right_inj b₁).mpr hpre₂
    · rw [List.length_append, Cursor.advance_advance]

/-- After a decoder whose values have one spelling each, the bytes of the others follow. -/
theorem Exact.andThen {encode : α → List UInt8} {R : α → β → List UInt8 → Prop}
    (hd : d.Exact fun x bs => bs = encode x) (hf : ∀ x, (f x).Exact (R x)) :
    (d >>= f).Exact fun y bs => ∃ x b, R x y b ∧ bs = encode x ++ b :=
  (hd.bind hf).congr fun y bs => by
    constructor
    · rintro ⟨x, _, b, rfl, hr, rfl⟩
      exact ⟨x, b, hr, rfl⟩
    · rintro ⟨x, b, hr, rfl⟩
      exact ⟨x, _, b, rfl, hr, rfl⟩

/-- The runs of an exact decoder that succeed. -/
theorem Exact.run_eq_ok_iff (hd : d.Exact P) :
    d.run c = .ok (x, c') ↔ ∃ bs, P x bs ∧ bs <+: c.rest ∧ c' = c.advance bs.length := by
  constructor
  · exact hd.only c x c'
  · rintro ⟨bs, hp, hpre, rfl⟩
    exact (hd.reads x bs hp).whole c hpre

/-- The runs that succeed of a decoder that is exact for an encoder of known sizes. -/
theorem Exact.run_eq_ok_iff_encode {Fits : α → Prop} {encode : α → List UInt8} {size : α → Nat}
    (hd : d.Exact fun x bs => Fits x ∧ bs = encode x) (hsize : (encode x).length = size x) :
    d.run c = .ok (x, c') ↔ Fits x ∧ encode x <+: c.rest ∧ c' = c.advance (size x) := by
  rw [hd.run_eq_ok_iff]
  constructor
  · rintro ⟨_, ⟨fits, rfl⟩, hpre, rfl⟩
    exact ⟨fits, hpre, by rw [hsize]⟩
  · rintro ⟨fits, hpre, rfl⟩
    exact ⟨_, ⟨fits, rfl⟩, hpre, by rw [hsize]⟩

/-- The values that bytes spell from their front on are one value, with one spelling. -/
theorem Exact.unique (hd : d.Exact P) {x' : α} {l : List UInt8} (h : P x bs) (h' : P x' bs')
    (hpre : bs <+: l) (hpre' : bs' <+: l) : x = x' ∧ bs = bs' := by
  have hread := (hd.reads x bs h).whole (.start l.toByteArray) (by rwa [Cursor.rest_start])
  have hread' := (hd.reads x' bs' h').whole (.start l.toByteArray) (by rwa [Cursor.rest_start])
  -- A decoder gives one value and moves by one length, whichever spelling is looked at.
  have heq := hread.symm.trans hread'
  simp only [Except.ok.injEq, Prod.mk.injEq, Cursor.advance, Cursor.start, Cursor.mk.injEq,
    Nat.zero_add, true_and] at heq
  exact ⟨heq.1, (List.prefix_of_prefix_length_le hpre hpre' heq.2.le).eq_of_length heq.2⟩

/-! ### Bytes and words -/

theorem run_take (n : Nat) (c : Cursor) : (take n).run c =
    if n ≤ c.rest.length then .ok (c.rest.take n, c.advance n)
    else .error (.io .unexpectedEnd) := by
  change take n c = _
  rw [take, Cursor.take?_eq]
  by_cases h : n ≤ c.rest.length
  · rw [if_pos h, if_pos h]
  · rw [if_neg h, if_neg h]

theorem take_exact (n : Nat) : (take n).Exact fun x bs => bs = x ∧ x.length = n where
  reads := by
    rintro _ bs ⟨rfl, rfl⟩
    constructor
    · intro c h
      rw [run_take, if_pos h.length_le, List.prefix_iff_eq_take.mp h, List.length_take,
        Nat.min_eq_left h.length_le]
    · intro c h hne
      have hlt : c.rest.length < bs.length :=
        lt_of_le_of_ne h.length_le fun heq => hne (h.eq_of_length heq)
      rw [run_take, if_neg (by omega)]
  only c x c' hrun := by
    rw [run_take] at hrun
    split at hrun
    · next h =>
      obtain ⟨rfl, rfl⟩ : c.rest.take n = x ∧ c.advance n = c' := by simpa using hrun
      have hlen : (c.rest.take n).length = n := List.length_take_of_le h
      exact ⟨_, ⟨rfl, hlen⟩, List.take_prefix n _, by rw [hlen]⟩
    · simp at hrun

theorem word16_exact : word16.Exact fun w bs => bs = le16 w := by
  refine ((take_exact 2).bind (R := fun bs w bs' =>
    (∃ b₀ b₁, bs = [b₀, b₁] ∧ w = ofLe16 b₀ b₁) ∧ bs' = []) fun bs => ?_).congr fun w bs => ?_
  · match bs with
    | [b₀, b₁] => exact (Exact.pure (ofLe16 b₀ b₁)).congr (by simp)
    -- Two bytes have been taken, so the decoder fails on any other number of them.
    | [] | [_] | _ :: _ :: _ :: _ =>
      exact ⟨by simp, fun _ _ _ h => by cases h⟩
  · constructor
    · rintro ⟨_, _, _, ⟨rfl, -⟩, ⟨⟨b₀, b₁, rfl, rfl⟩, rfl⟩, rfl⟩
      simp [le16_ofLe16]
    · rintro rfl
      exact ⟨_, _, [], ⟨rfl, rfl⟩, ⟨⟨_, _, rfl, (ofLe16_bytes w).symm⟩, rfl⟩, by simp [le16]⟩

theorem word32_exact : word32.Exact fun w bs => bs = le32 w := by
  refine ((take_exact 4).bind (R := fun bs w bs' =>
    (∃ b₀ b₁ b₂ b₃, bs = [b₀, b₁, b₂, b₃] ∧ w = ofLe32 b₀ b₁ b₂ b₃) ∧ bs' = [])
    fun bs => ?_).congr fun w bs => ?_
  · match bs with
    | [b₀, b₁, b₂, b₃] => exact (Exact.pure (ofLe32 b₀ b₁ b₂ b₃)).congr (by simp)
    -- The same for four bytes.
    | [] | [_] | [_, _] | [_, _, _] | _ :: _ :: _ :: _ :: _ :: _ =>
      exact ⟨by simp, fun _ _ _ h => by cases h⟩
  · constructor
    · rintro ⟨_, _, _, ⟨rfl, -⟩, ⟨⟨b₀, b₁, b₂, b₃, rfl, rfl⟩, rfl⟩, rfl⟩
      simp [le32_ofLe32]
    · rintro rfl
      exact ⟨_, _, [], ⟨rfl, rfl⟩, ⟨⟨_, _, _, _, rfl, (ofLe32_bytes w).symm⟩, rfl⟩, by simp [le32]⟩

theorem signature_exact (expected : UInt32) (fault : UInt32 → FormatError) :
    (signature expected fault).Exact fun _ bs => bs = le32 expected := by
  refine (word32_exact.bind (R := fun w _ bs => w = expected ∧ bs = []) fun w => ?_).congr
    fun _ bs => ?_
  · by_cases h : w = expected
    · rw [if_pos h]
      exact (Exact.pure ()).congr (by simp [h])
    · rw [if_neg h]
      exact ⟨by simp [h], fun _ _ _ hrun => by cases hrun⟩
  · constructor
    · rintro ⟨_, _, _, rfl, ⟨rfl, rfl⟩, rfl⟩
      simp
    · rintro rfl
      exact ⟨expected, _, [], rfl, ⟨rfl, rfl⟩, by simp⟩

end Decoder

end Folio
