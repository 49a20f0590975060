import Folio.Proofs.Codecs
import Folio.Proofs.Stream.Incremental
import Folio.Proofs.Stream.Local

/-!
# The bzip2 decoder sees no further than it reads

The decoder reads a whole block at a time and puts out its bytes at once. The only thing in it that
depends on the length of the input is a bound for the lengths of code words, which are written as
any number of changes. The bound exceeds the number of bits, so it is never reached.

## Main results

* `readLength_agree` — bounds that exceed the number of bits make no difference
* `readPart_local`, `readHeader_local` — the readers of the decoder see no further than they read
* `step_again` — a step reads a byte at least
* `step_more` — more input makes no difference to a step
* `incremental` — the decoder sees no further than it reads
-/

namespace Folio.Bzip2

open BitReader

/-! ### Readers -/

theorem readFlags_local : readFlags.Local 0 := (times_local bit_local.any 16).map

theorem readUsedBytes_local : readUsedBytes.Local 0 :=
  readFlags_local.followed fun _ => (mapM_local (fun _ => readFlags_local.map) _).map

theorem readOnes_local (limit fuel ones : Nat) : (readOnes limit fuel ones).Local 0 := by
  induction fuel generalizing ones with
  | zero => exact corrupt_local
  | succ fuel ih =>
    refine bit_local.any.followed fun b => ?_
    split
    · split
      · exact corrupt_local
      · exact ih _
    · exact .pure ones

theorem readChoices_local (codes : Nat) : (readChoices codes).Local 0 := by
  refine (highNumber_local 15).any.followed fun count => ?_
  split
  · exact corrupt_local
  · exact (times_local (readOnes_local codes codes 0) count).map

theorem readLength_local (fuel length : Nat) : (readLength fuel length).Local 0 := by
  induction fuel generalizing length with
  | zero => exact corrupt_local
  | succ fuel ih =>
    rw [readLength]
    split
    · exact corrupt_local
    · refine bit_local.any.followed fun b => ?_
      split
      · refine bit_local.any.followed fun b => ?_
        split
        · exact ih _
        · exact ih _
      · exact .pure length

theorem readLengths_local (fuel count length : Nat) (read : List Nat) :
    (readLengths fuel count length read).Local 0 := by
  induction count generalizing length read with
  | zero => exact .pure read.reverse
  | succ count ih => exact (readLength_local fuel length).followed fun length => ih _ _

/-- Bounds that exceed the number of bits make no difference: every change takes a bit. -/
theorem readLength_agree {count fuel fuel' : Nat} (h : count ≤ fuel) (h' : count ≤ fuel')
    (length : Nat) : AgreeBelow count (readLength fuel length) (readLength fuel' length) := by
  induction fuel generalizing count fuel' length with
  | zero =>
    intro s _ hlt
    omega
  | succ fuel ih =>
    cases count with
    | zero =>
      intro s _ hlt
      omega
    | succ count =>
      obtain ⟨fuel', rfl⟩ : ∃ n, fuel' = n + 1 := ⟨fuel' - 1, by omega⟩
      rw [readLength, readLength]
      split
      · exact .refl _ _
      · refine .bind bit_local (.refl _ _) fun b => ?_
        split
        · refine .followed bit_local.any (.refl _ _) fun b => ?_
          split
          · exact ih (by omega) (by omega) _
          · exact ih (by omega) (by omega) _
        · exact .refl _ _

theorem readLengths_agree {bits fuel fuel' : Nat} (h : bits ≤ fuel) (h' : bits ≤ fuel')
    (count length : Nat) (read : List Nat) :
    AgreeBelow bits (readLengths fuel count length read)
      (readLengths fuel' count length read) := by
  induction count generalizing length read with
  | zero => exact .refl _ _
  | succ count ih =>
    exact .followed (readLength_local fuel length) (readLength_agree h h' length)
      fun length => ih _ _

/-- Reads a code for the given number of symbols, where `fuel` bounds the number of bits. -/
def readCodeWithin (symbols fuel : Nat) : Reader PrefixCode := do
  let first ← highNumber 5
  let lengths ← readLengths fuel symbols first []
  return .ofLengths maxWord lengths

theorem readCode_eq (symbols : Nat) :
    readCode symbols = (get >>= fun s => readCodeWithin symbols s.bound) := rfl

theorem readCodeWithin_local (symbols fuel : Nat) : (readCodeWithin symbols fuel).Local 0 :=
  (highNumber_local 5).any.followed fun _ => (readLengths_local _ _ _ _).map

/-- The bound that a reader chooses exceeds the number of bits, and so does a larger one. -/
theorem run_readCode {symbols fuel : Nat} {s : BitSource .highFirst} (hs : s.Short)
    (h : s.bound ≤ fuel) : (readCode symbols).run s = (readCodeWithin symbols fuel).run s := by
  have hagree : AgreeBelow s.bound (readCodeWithin symbols s.bound)
      (readCodeWithin symbols fuel) :=
    .followed (highNumber_local 5).any (.refl _ _) fun first =>
      .followed (readLengths_local _ _ _ _)
        (readLengths_agree (Nat.le_refl _) h symbols first []) fun _ => .refl _ _
  have hshort : s.pending.length < 8 := hs
  have hlt : s.toList.length < s.bound := by
    rw [BitSource.length_toList, BitSource.bound]
    omega
  rw [readCode_eq, run_get_bind]
  exact hagree s hs hlt

theorem readCode_local (symbols : Nat) : (readCode symbols).Local 0 where
  leadsTo {s _ _} hs hrun := by
    rw [run_readCode hs (Nat.le_refl _)] at hrun
    exact (readCodeWithin_local symbols s.bound).leadsTo hs hrun
  more {s} extra hs hne := by
    have hbound : s.bound ≤ (s.more extra).bound := by
      simp only [BitSource.bound, BitSource.more, List.length_append]
      omega
    rw [run_readCode hs hbound] at hne ⊢
    rw [run_readCode (s := s.more extra) hs (Nat.le_refl _)]
    exact (readCodeWithin_local symbols (s.more extra).bound).more extra hs hne

theorem readSymbol_local (code : PrefixCode) : (readSymbol code).Local 0 := by
  refine code.read?_local.followed fun symbol => ?_
  cases symbol with
  | some symbol => exact .pure symbol
  | none => exact bit_local.any.followed fun _ => corrupt_local

theorem readColumn_local (capacity endSymbol : Nat) (codes : List PrefixCode) (column : Column) :
    (readColumn capacity endSymbol codes column).Local 0 := by
  induction codes generalizing column with
  | nil => exact corrupt_local
  | cons code codes ih =>
    refine (readSymbol_local code).followed fun symbol => ?_
    split
    · split
      · exact corrupt_local
      · exact ih _
    · split
      · exact corrupt_local
      · split
        · exact .pure _
        · split
          · exact corrupt_local
          · exact ih _

theorem readBlock_local (level : Nat) : (readBlock level).Local 0 := by
  refine (highNumber_local 32).any.followed fun crc => bit_local.any.followed fun randomised =>
    (highNumber_local 24).any.followed fun origin => ?_
  split
  · exact corrupt_local
  · refine readUsedBytes_local.followed fun used => ?_
    split
    · exact corrupt_local
    · refine (highNumber_local 3).any.followed fun codeCount => ?_
      split
      · exact corrupt_local
      · refine (readChoices_local codeCount).followed fun choices =>
          (times_local (readCode_local _) codeCount).followed fun codes =>
          (readColumn_local _ _ _ _).followed fun column => ?_
        split
        · exact corrupt_local
        · exact .pure _

theorem expectBytes_local (bytes : List Nat) : (expectBytes bytes).Local 0 := by
  induction bytes with
  | nil => exact .pure ()
  | cons expected rest ih =>
    refine (highNumber_local 8).any.followed fun byte => ?_
    split
    · exact ih
    · exact corrupt_local

theorem expectMagic_local (bytes : List Nat) : (expectMagic bytes).Local 0 := by
  induction bytes with
  | nil => exact .pure ()
  | cons expected rest ih =>
    refine (highNumber_local 8).any.followed fun byte => ?_
    split
    · exact ih
    · exact throw_local .badMagic

/-- The header takes a byte at least. -/
theorem readHeader_local : readHeader.Local 8 := by
  refine (expectMagic_local _).bind fun _ => (highNumber_local 8).followed fun digit => ?_
  split
  · exact .pure _
  · exact throw_local .badMagic

/-- A signature takes a byte at least. -/
theorem readSignature_local : readSignature.Local 8 := by
  refine (highNumber_local 8).followed fun first => ?_
  split
  · exact (expectBytes_local _).map
  · split
    · exact (expectBytes_local _).map
    · exact corrupt_local

theorem readPart_local (level : Nat) : (readPart level).Local 8 := by
  refine readSignature_local.followed fun isBlock => ?_
  split
  · exact (readBlock_local level).map
  · exact (highNumber_local 32).any.map

/-! ### Steps -/

/-- The state with more bytes behind the input. -/
def State.more (s : State) (extra : List UInt8) : State := { s with bits := s.bits.more extra }

theorem State.more_bits (s : State) (extra : List UInt8) :
    (s.more extra).bits = s.bits.more extra := rfl

/-- What holds of the decoder between two steps. -/
structure State.Sound (s : State) : Prop where
  short : s.bits.Short
  length_le : s.bits.bytes.length ≤ s.size

/-- The decoder has read on from the state `s`, and a byte at least. -/
structure State.Advances (s s' : State) : Prop where
  leadsTo : ∃ bits, 8 ≤ bits.length ∧ s.bits.LeadsTo bits s'.bits
  size_eq : s'.size = s.size

variable {s s' : State} {output output' : ByteArray} {extra : List UInt8} {level : Nat}

theorem State.Advances.sound (h : s.Advances s') (hs : s.Sound) : s'.Sound := by
  obtain ⟨bits, -, hlead⟩ := h.leadsTo
  refine ⟨hlead.short, ?_⟩
  rw [h.size_eq]
  exact hlead.suffix.length_le.trans hs.length_le

theorem State.Advances.left_lt (h : s.Advances s') :
    s'.bits.toList.length / 8 < s.bits.toList.length / 8 := by
  obtain ⟨bits, hlength, hlead⟩ := h.leadsTo
  rw [hlead.length_toList]
  omega

theorem State.Sound.of_more (hs : (s.more extra).Sound) : s.Sound where
  short := hs.short
  length_le := by
    have hlength : (s.bits.bytes ++ extra).length ≤ s.size := hs.length_le
    rw [List.length_append] at hlength
    omega

theorem stepPart_again (hs : s.Sound) (h : stepPart s level output = (output', .again s')) :
    s.Advances s' := by
  cases hread : (readPart level).run s.bits with
  | error fault =>
    rw [stepPart, hread] at h
    exact absurd (Prod.mk.inj h).2 (Continuation.ofFault_ne_again fault s')
  | ok read =>
    have hleads := (readPart_local level).leadsTo hs.short hread
    obtain ⟨part, bits⟩ := read
    rw [stepPart, hread] at h
    cases part with
    | streamEnd crc =>
      dsimp only at h
      split at h <;> cases h
    | block block =>
      dsimp only at h
      split at h
      · cases h
      · split at h
        · obtain rfl := Continuation.again.inj (Prod.mk.inj h).2
          exact ⟨hleads, rfl⟩
        · cases h

/-- A step reads a byte at least. -/
theorem step_again (hs : s.Sound) (h : decoder.step s output = (output', .again s')) :
    s.Advances s' := by
  simp only [decoder] at h
  split at h
  · exact stepPart_again hs h
  · split at h
    · exact absurd (Prod.mk.inj h).2 (Continuation.ofFault_ne_again _ s')
    · next level bits hread =>
      obtain rfl := Continuation.again.inj (Prod.mk.inj h).2
      exact ⟨readHeader_local.leadsTo hs.short hread, rfl⟩

theorem stepPart_more (extra : List UInt8) (hs : s.Sound)
    (hne : (stepPart s level output).2 ≠ .stuck .truncated) :
    stepPart (s.more extra) level output =
      ((stepPart s level output).1, (stepPart s level output).2.map (·.more extra)) := by
  have hcombined : (s.more extra).combined = s.combined := rfl
  rw [stepPart, stepPart, State.more_bits, hcombined]
  rcases (readPart_local level).run_more hs.short extra with
    ⟨fault, hread, hmore⟩ | ⟨part, bits, hread, hmore⟩
  · rw [stepPart, hread] at hne
    rw [hread, hmore (fun h => hne (by rw [h]; rfl))]
    simp only [Continuation.map_ofFault]
  · rw [hread, hmore]
    cases part with
    | streamEnd crc =>
      dsimp only
      split <;> rfl
    | block block =>
      dsimp only
      split
      · rfl
      · split <;> rfl

theorem stepHeader_more (extra : List UInt8) (hs : s.Sound) (hlevel : s.level = none)
    (hne : (decoder.step s output).2 ≠ .stuck .truncated) :
    decoder.step (s.more extra) output =
      ((decoder.step s output).1, (decoder.step s output).2.map (·.more extra)) := by
  have hsame : (s.more extra).level = none := hlevel
  simp only [decoder, hlevel, hsame, State.more_bits] at hne ⊢
  rcases readHeader_local.run_more hs.short extra with
    ⟨fault, hread, hmore⟩ | ⟨level, bits, hread, hmore⟩
  · rw [hread] at hne
    rw [hread, hmore (fun h => hne (by rw [h]; rfl))]
    simp only [Continuation.map_ofFault]
  · rw [hread, hmore]
    rfl

/-- More input makes no difference to a step, unless it lacks a bit. -/
theorem step_more (extra : List UInt8) (hs : s.Sound)
    (hne : (decoder.step s output).2 ≠ .stuck .truncated) :
    decoder.step (s.more extra) output =
      ((decoder.step s output).1, (decoder.step s output).2.map (·.more extra)) := by
  cases hlevel : s.level with
  | none => exact stepHeader_more extra hs hlevel hne
  | some level =>
    have hsame : (s.more extra).level = some level := hlevel
    simp only [decoder, hlevel, hsame] at hne ⊢
    exact stepPart_more extra hs hne

theorem State.more_nil (s : State) : s.more [] = s := by
  rw [State.more, BitSource.more_nil]

/-! ### Input -/

theorem start_sound (input : ByteArray) : (decoder.start input).Sound :=
  ⟨BitSource.short_ofBytes _, by simp [decoder, BitSource.ofBytes]⟩

/-- There are steps enough to read all of the input. -/
theorem start_left (input : ByteArray) :
    (decoder.start input).bits.toList.length / 8 < decoder.steps input := by
  simp only [decoder, BitSource.toList_ofBytes, BitOrder.length_flatMap_unpack,
    Array.length_toList, ByteArray.size_data]
  omega

theorem exists_fetched (s : State) : ∃ rest, (decoder.fetched s).more rest = s := by
  obtain ⟨rest, hrest⟩ := s.bits.exists_fetched_more pieceSize s.size
  refine ⟨rest, ?_⟩
  simp only [decoder, State.more, hrest]

/-- A decoder that works on what has been fetched needs no more than is fetched later. -/
theorem fetched_again {rest : List UInt8} (hs : (s.more rest).Sound)
    (hfetched : decoder.fetched (s.more rest) = s.more extra)
    (h : decoder.step s output = (output', .again s')) :
    ∃ extra', decoder.fetched (s'.more rest) = s'.more extra' := by
  have hadvances := step_again hs.of_more h
  obtain ⟨bits, -, hlead⟩ := hadvances.leadsTo
  obtain ⟨extra', hextra⟩ := BitSource.exists_fetched_eq_more (by decide) hs.length_le rfl
    (congrArg State.bits hfetched) hlead
  have hsize : (s'.more rest).size = (s.more rest).size := hadvances.size_eq
  refine ⟨extra', ?_⟩
  rw [← hsize] at hextra
  simp only [decoder, State.more] at hextra ⊢
  rw [hextra]

/-- The decoder can be stopped anywhere. -/
def incremental : decoder.Incremental where
  toSequential := decoder_sequential
  Sound := State.Sound
  more := State.more
  left s := s.bits.toList.length / 8
  start_sound := start_sound
  start_left := start_left
  sound_of_more hs := hs.of_more
  step_again hs h := ⟨(step_again hs h).sound hs, (step_again hs h).left_lt⟩
  step_more extra _ hs hne := step_more extra hs hne
  exists_fetched := exists_fetched
  fetched_again := fetched_again
  more_nil := State.more_nil
  room_mono h := h

end Folio.Bzip2
