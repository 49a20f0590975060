import Folio.Proofs.Stream.Bits
import Folio.Stream.PrefixCode

/-!
# Readers that see no further than they read

What a reader takes off the front of the bits does not depend on what follows. If bytes are added at
the end, then it reads the same value and finds the same damage. All that the added bytes can change
is that the reader no longer runs out of bits.

## Main definitions

* `BitSource.more` — the bits with more bytes behind them
* `BitReader.Local` — a reader takes a number of bits at least, and sees nothing behind them
* `BitReader.AgreeBelow` — readers that differ only on long input
* `BitReader.Yields` — what holds of all values that a reader reads

## Main results

* `BitReader.Local.bind` — readers one after another
* `BitReader.times_local`, `PrefixCode.read?_local` — readers of values and of symbols
* `BitSource.fetched_more` — reading on, a decoder fetches no less
-/

namespace Folio

namespace BitSource

variable {order : BitOrder} {s s' t t' : BitSource order} {bits : List Bool}
  {extra rest : List UInt8}

/-- The bits with more bytes behind them. -/
def more (s : BitSource order) (extra : List UInt8) : BitSource order :=
  { s with bytes := s.bytes ++ extra }

@[simp] theorem more_nil (s : BitSource order) : s.more [] = s := by
  simp [more]

theorem next?_more {b : Bool} (extra : List UInt8) (h : s.next? = some (b, s')) :
    (s.more extra).next? = some (b, s'.more extra) := by
  obtain ⟨pending, bytes⟩ := s
  cases pending with
  | cons b' pending =>
    obtain ⟨rfl, rfl⟩ := Prod.mk.inj (Option.some.inj h)
    rfl
  | nil =>
    cases bytes with
    | nil => simp [next?] at h
    | cons byte bytes =>
      simp only [next?] at h
      split at h
      · next hunpack =>
        obtain ⟨rfl, rfl⟩ := Prod.mk.inj (Option.some.inj h)
        simp only [more, List.cons_append, next?, hunpack]
      · simp at h

/-- The next bit is taken off the front. -/
theorem leadsTo_of_next? {b : Bool} (hs : s.Short) (h : s.next? = some (b, s')) :
    s.LeadsTo [b] s' := by
  -- There is a bit to read, so there is a first bit.
  have hne : s.toList ≠ [] := by
    intro hempty
    obtain ⟨pending, bytes⟩ := s
    obtain ⟨rfl, hbytes⟩ := List.append_eq_nil_iff.mp hempty
    cases bytes with
    | nil => simp [next?] at h
    | cons byte bytes =>
      have hlength := congrArg List.length hbytes
      simp at hlength
  obtain ⟨b', rest, htoList⟩ := List.exists_cons_of_ne_nil hne
  obtain ⟨s'', hnext, hlead, -⟩ := exists_next? hs htoList
  obtain ⟨rfl, rfl⟩ := Prod.mk.inj (Option.some.inj (hnext.symm.trans h))
  exact hlead

theorem leadsTo_alignToByte (s : BitSource order) : s.LeadsTo s.pending s.alignToByte :=
  ⟨rfl, Nat.zero_lt_succ 7, List.suffix_rfl⟩

theorem LeadsTo.length_toList (h : s.LeadsTo bits s') :
    s.toList.length = bits.length + s'.toList.length := by
  rw [h.toList, List.length_append]

/-! ### Pieces of input -/

/-- The end of the piece of input in which a place lies. -/
def pieceEnd (piece place : Nat) : Nat := place + (piece - place % piece) % piece

theorem pieceEnd_eq {piece : Nat} (hpiece : 0 < piece) (place : Nat) :
    pieceEnd piece place = (place + (piece - 1)) / piece * piece := by
  have hmod : place % piece < piece := Nat.mod_lt place hpiece
  have hplace : place = piece * (place / piece) + place % piece := (Nat.div_add_mod _ _).symm
  rcases Nat.eq_zero_or_pos (place % piece) with hzero | hpos
  -- A place where a piece ends is the end of that piece.
  · have hdiv : (place + (piece - 1)) / piece = place / piece := by
      rw [hplace, hzero, Nat.add_zero, Nat.mul_add_div hpiece,
        Nat.div_eq_of_lt (Nat.sub_lt hpiece Nat.one_pos), Nat.mul_div_cancel_left _ hpiece]
      omega
    rw [pieceEnd, hdiv, hzero, Nat.sub_zero, Nat.mod_self, Nat.mul_comm]
    omega
  · have hdiv : (place + (piece - 1)) / piece = place / piece + 1 := by
      have hsum : place + (piece - 1) = piece * (place / piece + 1) + (place % piece - 1) := by
        rw [Nat.mul_add_one]
        omega
      rw [hsum, Nat.mul_add_div hpiece, Nat.div_eq_of_lt (a := place % piece - 1) (by omega),
        Nat.add_zero]
    rw [pieceEnd, hdiv, Nat.mod_eq_of_lt (by omega), Nat.add_mul, Nat.mul_comm (place / piece)]
    omega

theorem pieceEnd_mono {piece place place' : Nat} (hpiece : 0 < piece) (h : place ≤ place') :
    pieceEnd piece place ≤ pieceEnd piece place' := by
  rw [pieceEnd_eq hpiece, pieceEnd_eq hpiece]
  exact Nat.mul_le_mul_right _ (Nat.div_le_div_right (by omega))

theorem exists_fetched_more (s : BitSource order) (piece total : Nat) :
    ∃ extra, (s.fetched piece total).more extra = s :=
  ⟨s.bytes.drop ((piece - (total - s.bytes.length) % piece) % piece), by
    simp only [fetched, more, List.take_append_drop]⟩

/-- A decoder that works on what has been fetched, `t`, has fetched no more than one that has read
as far and then fetches the rest of the piece of input. -/
theorem exists_fetched_eq_more {piece total : Nat} (hpiece : 0 < piece)
    (hlength : s.bytes.length ≤ total) (ht : t.more rest = s)
    (hfetched : s.fetched piece total = t.more extra) (hlead : t.LeadsTo bits t') :
    ∃ extra', (t'.more rest).fetched piece total = t'.more extra' := by
  subst ht
  have hsuffix := hlead.suffix.length_le
  simp only [more, List.length_append] at hlength
  -- What has been fetched ends at the end of the piece, or before it.
  have hpast : t.bytes.length ≤ (piece - (total - (t.bytes ++ rest).length) % piece) % piece := by
    have htake := congrArg (fun s => s.bytes.length) hfetched
    simp only [fetched, more, List.length_take, List.length_append] at htake ⊢
    omega
  have hend := pieceEnd_mono hpiece (show
    total - (t.bytes ++ rest).length ≤ total - (t'.bytes ++ rest).length by
      simp only [List.length_append]
      omega)
  simp only [pieceEnd, List.length_append] at hend hpast
  have hle : t'.bytes.length ≤
      (piece - (total - (t'.bytes ++ rest).length) % piece) % piece := by
    simp only [List.length_append]
    omega
  refine ⟨rest.take
    ((piece - (total - (t'.bytes ++ rest).length) % piece) % piece - t'.bytes.length), ?_⟩
  simp only [fetched, more, List.take_append, List.take_of_length_le hle]

end BitSource

namespace BitReader

variable {order : BitOrder} {α β : Type} {r : BitReader order α} {f : α → BitReader order β}
  {least least' : Nat}

/-- The reader takes `least` bits or more off the front and does not see what follows them. -/
structure Local (r : BitReader order α) (least : Nat) : Prop where
  /-- A value is read from bits at the front. -/
  leadsTo : ∀ {s s' : BitSource order} {x : α}, s.Short → r.run s = .ok (x, s') →
    ∃ bits, least ≤ bits.length ∧ s.LeadsTo bits s'
  /-- With more bytes behind the bits the same happens, unless there are too few bits. -/
  more : ∀ {s : BitSource order} (extra : List UInt8), s.Short → r.run s ≠ .error .truncated →
    r.run (s.more extra) = (r.run s).map (Prod.map id (·.more extra))

theorem Local.mono (h : r.Local least) (hle : least' ≤ least) : r.Local least' where
  leadsTo hs hrun := by
    obtain ⟨bits, hlength, hlead⟩ := h.leadsTo hs hrun
    exact ⟨bits, hle.trans hlength, hlead⟩
  more := h.more

/-- The two ways in which a reader runs, and runs with more bytes behind the bits. -/
theorem Local.run_more (h : r.Local least) {s : BitSource order} (hs : s.Short)
    (extra : List UInt8) :
    (∃ fault, r.run s = .error fault ∧
        (fault ≠ .truncated → r.run (s.more extra) = .error fault)) ∨
      ∃ x s', r.run s = .ok (x, s') ∧ r.run (s.more extra) = .ok (x, s'.more extra) := by
  have hmore := h.more extra hs
  cases hrun : r.run s with
  | error fault =>
    rw [hrun] at hmore
    exact .inl ⟨fault, rfl, fun hne => hmore (by simpa using hne)⟩
  | ok read =>
    rw [hrun] at hmore
    exact .inr ⟨read.1, read.2, rfl, hmore (by simp)⟩

theorem Local.pure (x : α) : (pure x : BitReader order α).Local 0 where
  leadsTo {s s' y} hs hrun := by
    obtain ⟨rfl, rfl⟩ : x = y ∧ s = s' := Prod.mk.inj (Except.ok.inj hrun)
    exact ⟨[], Nat.le_refl 0, .refl hs⟩
  more _ _ _ := rfl

/-- Readers one after another take the bits of both of them. -/
theorem Local.bind (hr : r.Local least) (hf : ∀ x, (f x).Local least') :
    (r >>= f).Local (least + least') where
  leadsTo {s s'' y} hs hrun := by
    rw [run_bind] at hrun
    cases hfirst : r.run s with
    | error fault =>
      rw [hfirst] at hrun
      cases hrun
    | ok read =>
      obtain ⟨x, s'⟩ := read
      rw [hfirst] at hrun
      obtain ⟨bits, hlength, hlead⟩ := hr.leadsTo hs hfirst
      obtain ⟨bits', hlength', hlead'⟩ := (hf x).leadsTo hlead.short hrun
      refine ⟨bits ++ bits', ?_, hlead.trans hlead'⟩
      rw [List.length_append]
      omega
  more {s} extra hs hne := by
    rw [run_bind] at hne ⊢
    cases hfirst : r.run s with
    | error fault =>
      have hfault : r.run s ≠ .error .truncated := by
        intro htruncated
        rw [htruncated] at hne
        exact hne rfl
      rw [run_bind, hr.more extra hs hfault, hfirst]
      rfl
    | ok read =>
      obtain ⟨x, s'⟩ := read
      obtain ⟨bits, -, hlead⟩ := hr.leadsTo hs hfirst
      rw [hfirst] at hne
      rw [run_bind, hr.more extra hs (by simp [hfirst]), hfirst]
      exact (hf x).more extra hlead.short hne

/-- The first of two readers takes bits enough. -/
theorem Local.followed (hr : r.Local least) (hf : ∀ x, (f x).Local 0) :
    (r >>= f).Local least := hr.bind hf

theorem Local.any (hr : r.Local least) : r.Local 0 := hr.mono (Nat.zero_le least)

/-- A value that is made of what has been read. -/
theorem Local.map {g : α → β} (hr : r.Local least) :
    (r >>= fun x => Pure.pure (g x)).Local least :=
  hr.followed fun x => .pure (g x)

theorem run_get_bind (f : BitSource order → BitReader order β) (s : BitSource order) :
    (get >>= f).run s = (f s).run s := rfl

/-- Damage that is found without reading on. -/
theorem throw_local (fault : StreamFault) :
    (throw fault : BitReader order α).Local least where
  leadsTo _ hrun := by cases hrun
  more _ _ _ := rfl

theorem corrupt_local : (corrupt : BitReader order α).Local least := throw_local .corrupt

theorem bit_local : (bit : BitReader order Bool).Local 1 where
  leadsTo {s s' b} hs hrun := by
    change bit s = _ at hrun
    cases hnext : s.next? with
    | none => simp [bit, hnext] at hrun
    | some read =>
      rw [bit, hnext] at hrun
      obtain rfl := Except.ok.inj hrun
      exact ⟨[b], Nat.le_refl 1, BitSource.leadsTo_of_next? hs hnext⟩
  more {s} extra hs hne := by
    change bit s ≠ _ at hne
    change bit (s.more extra) = (bit s).map _
    cases hnext : s.next? with
    | none => simp [bit, hnext] at hne
    | some read =>
      rw [bit, bit, hnext, BitSource.next?_more extra hnext]
      rfl

theorem alignToByte_local :
    (modify BitSource.alignToByte : BitReader order PUnit).Local 0 where
  leadsTo {s s' x} hs hrun := by
    obtain rfl : s.alignToByte = s' := (Prod.mk.inj (Except.ok.inj hrun)).2
    exact ⟨s.pending, Nat.zero_le _, s.leadsTo_alignToByte⟩
  more _ _ _ := rfl

theorem lowNumber_local (width : Nat) : (lowNumber width : BitReader order Nat).Local width := by
  induction width with
  | zero => exact .pure 0
  | succ width ih => exact (bit_local.bind fun b => ih.map).mono (Nat.add_comm width 1).le

theorem highNumberAfter_local (width read : Nat) :
    (highNumberAfter width read : BitReader order Nat).Local width := by
  induction width generalizing read with
  | zero => exact .pure read
  | succ width ih => exact (bit_local.bind fun b => ih _).mono (Nat.add_comm width 1).le

theorem highNumber_local (width : Nat) : (highNumber width : BitReader order Nat).Local width :=
  highNumberAfter_local width 0

theorem timesAfter_local (hr : r.Local 0) (n : Nat) (read : List α) :
    (timesAfter r n read).Local 0 := by
  induction n generalizing read with
  | zero => exact .pure read.reverse
  | succ n ih => exact hr.followed fun x => ih _

theorem times_local (hr : r.Local 0) (n : Nat) : (times r n).Local 0 := timesAfter_local hr n []

theorem mapM_local (hf : ∀ x, (f x).Local 0) (list : List α) : (list.mapM f).Local 0 := by
  induction list with
  | nil =>
    rw [List.mapM_nil]
    exact .pure []
  | cons x list ih =>
    rw [List.mapM_cons]
    exact (hf x).followed fun y => ih.map

/-- Two readers do the same as long as there are fewer than `count` bits. -/
def AgreeBelow (count : Nat) (r r' : BitReader order α) : Prop :=
  ∀ s : BitSource order, s.Short → s.toList.length < count → r.run s = r'.run s

theorem AgreeBelow.refl (count : Nat) (r : BitReader order α) : AgreeBelow count r r :=
  fun _ _ _ => rfl

/-- What follows a reader has fewer bits to agree on. -/
theorem AgreeBelow.bind {count : Nat} {r' : BitReader order α} {f' : α → BitReader order β}
    (hr : r.Local least) (hfirst : AgreeBelow (count + least) r r')
    (hf : ∀ x, AgreeBelow count (f x) (f' x)) :
    AgreeBelow (count + least) (r >>= f) (r' >>= f') := by
  intro s hs hlt
  rw [run_bind, run_bind, ← hfirst s hs hlt]
  cases hrun : r.run s with
  | error fault => rfl
  | ok read =>
    obtain ⟨bits, hlength, hlead⟩ := hr.leadsTo hs hrun
    have := hlead.length_toList
    exact hf read.1 read.2 hlead.short (by omega)

theorem AgreeBelow.followed {count : Nat} {r' : BitReader order α} {f' : α → BitReader order β}
    (hr : r.Local 0) (hfirst : AgreeBelow count r r')
    (hf : ∀ x, AgreeBelow count (f x) (f' x)) : AgreeBelow count (r >>= f) (r' >>= f') :=
  AgreeBelow.bind hr hfirst hf

/-- All values that the reader reads have a property. -/
structure Yields (r : BitReader order α) (P : α → Prop) : Prop where
  of_run : ∀ {s s' : BitSource order} {x : α}, r.run s = .ok (x, s') → P x

theorem Yields.pure {P : α → Prop} {x : α} (h : P x) :
    (Pure.pure x : BitReader order α).Yields P where
  of_run hrun := by
    obtain ⟨rfl, -⟩ := Prod.mk.inj (Except.ok.inj hrun)
    exact h

theorem Yields.bind {P : α → Prop} {Q : β → Prop} (hr : r.Yields P)
    (hf : ∀ x, P x → (f x).Yields Q) : (r >>= f).Yields Q where
  of_run {s s'' y} hrun := by
    rw [run_bind] at hrun
    cases hfirst : r.run s with
    | error fault =>
      rw [hfirst] at hrun
      cases hrun
    | ok read =>
      rw [hfirst] at hrun
      exact (hf read.1 (hr.of_run hfirst)).of_run hrun

/-- What is read last decides about the property. -/
theorem Yields.last {Q : β → Prop} (hf : ∀ x, (f x).Yields Q) : (r >>= f).Yields Q :=
  Yields.bind (P := fun _ => True) ⟨fun _ => trivial⟩ fun x _ => hf x

theorem corrupt_yields {P : α → Prop} : (corrupt : BitReader order α).Yields P :=
  ⟨fun hrun => nomatch hrun⟩

end BitReader

namespace PrefixCode

variable {order : BitOrder}

/-- A symbol takes a bit at least if there are code words. -/
theorem readFrom_local {levels : List (Array Nat)} (h : levels ≠ []) (offset : Nat) :
    (readFrom levels offset : BitReader order (Option Nat)).Local 1 := by
  induction levels generalizing offset with
  | nil => exact absurd rfl h
  | cons symbols longer ih =>
    refine BitReader.bit_local.followed fun b => ?_
    dsimp only
    split
    · exact .pure _
    · by_cases hlonger : longer = []
      · rw [hlonger]
        exact .pure none
      · exact (ih hlonger _).any

theorem read?_local (code : PrefixCode) : (code.read? : BitReader order (Option Nat)).Local 0 := by
  obtain ⟨levels⟩ := code
  cases levels with
  | nil => exact .pure none
  | cons symbols longer => exact (readFrom_local (List.cons_ne_nil _ _) 0).any

end PrefixCode

end Folio
