import Folio.Proofs.Codecs
import Folio.Proofs.Stream.Incremental
import Folio.Proofs.Stream.Local

/-!
# The deflate decoder sees no further than it reads

Every step of the decoder reads a bit at least: the code for the literals of a block has no word
without bits. What a step does depends on the bits that it reads and on the output before it, so the
decoder can be stopped anywhere, inside a block as well as between two of them.

## Main definitions

* `Code.Spelled` — no word of a code is without bits
* `State.Sound` — what holds of the decoder between two steps

## Main results

* `readHead_local`, `readItem_local` — the readers of the decoder see no further than they read
* `step_again` — a step reads a bit at least
* `step_more` — more input makes no difference to a step
* `incremental` — the decoder sees no further than it reads
-/

namespace Folio.Deflate

open BitReader

/-! ### Readers -/

/-- No word of the code is without bits. -/
def Code.Spelled : Code → Prop
  | .single length _ => length ≠ 0
  | _ => True

theorem codeOfLengths?_spelled {sparse : Bool} {lengths : List Nat} {code : Code}
    (h : codeOfLengths? sparse lengths = some code) : code.Spelled := by
  unfold codeOfLengths? at h
  dsimp only at h
  split at h
  · obtain rfl := Option.some.inj h
    trivial
  · split at h
    · obtain rfl := Option.some.inj h
      trivial
    · next length symbol hfilter =>
      obtain rfl := Option.some.inj h
      -- Symbols without a word have been left out.
      have hmem := List.mem_singleton_self (length, symbol)
      rw [← hfilter] at hmem
      have hlength : length ≠ 0 := by
        simpa using List.of_mem_filter hmem
      exact hlength
    · cases h

theorem readSingle_local (length symbol left : Nat) : (readSingle length symbol left).Local 0 := by
  induction left with
  | zero => exact .pure symbol
  | succ left ih =>
    refine bit_local.any.followed fun b => ?_
    split
    · exact ih
    · split
      · exact corrupt_local
      · exact .pure 0

/-- A symbol takes a bit at least. -/
theorem readSymbol_local_one {code : Code} (h : code.Spelled) : (readSymbol code).Local 1 := by
  cases code with
  | full code =>
    obtain ⟨levels⟩ := code
    cases levels with
    -- Without words there is no symbol to read.
    | nil => exact corrupt_local
    | cons symbols longer =>
      refine (PrefixCode.readFrom_local (List.cons_ne_nil _ _) 0).followed fun symbol => ?_
      cases symbol with
      | none => exact corrupt_local
      | some symbol => exact .pure symbol
  | single length symbol =>
    obtain ⟨left, rfl⟩ := Nat.exists_eq_succ_of_ne_zero h
    refine bit_local.followed fun b => ?_
    split
    · exact readSingle_local _ _ _
    · split
      · exact corrupt_local
      · exact .pure 0
  | wordless => exact bit_local.followed fun _ => corrupt_local

theorem readSymbol_local (code : Code) : (readSymbol code).Local 0 := by
  by_cases h : code.Spelled
  · exact (readSymbol_local_one h).any
  · cases code with
    | full code => exact absurd trivial h
    | single length symbol => exact readSingle_local length symbol length
    | wordless => exact absurd trivial h

theorem readRange_local (ranges : Array (Nat × Nat)) (symbol : Nat) :
    (readRange ranges symbol).Local 0 := by
  rw [readRange]
  split
  · exact (lowNumber_local _).any.map
  · exact corrupt_local

/-- An item takes a bit at least. -/
theorem readItem_local {literals : Code} (h : literals.Spelled) (distances : Code) :
    (readItem literals distances).Local 1 := by
  refine (readSymbol_local_one h).followed fun symbol => ?_
  split
  · exact .pure _
  · split
    · exact .pure _
    · exact (readRange_local _ _).followed fun length =>
        (readSymbol_local distances).followed fun symbol => (readRange_local _ _).map

theorem readLengths_local (code : Code) (fuel left : Nat) (read : List Nat) :
    (readLengths code fuel left read).Local 0 := by
  induction fuel generalizing left read with
  | zero =>
    cases left with
    | zero => exact .pure read.reverse
    | succ left => exact corrupt_local
  | succ fuel ih =>
    cases left with
    | zero => exact .pure read.reverse
    | succ left =>
      have hrepeated (length count : Nat) :
          (if left + 1 < count then corrupt
            else readLengths code fuel (left + 1 - count) (List.replicate count length ++ read) :
            Reader (List Nat)).Local 0 := by
        split
        · exact corrupt_local
        · exact ih _ _
      rw [readLengths]
      refine (readSymbol_local code).followed fun symbol => ?_
      split
      · exact ih _ _
      · split
        · cases read with
          | nil => exact corrupt_local
          | cons last read => exact (lowNumber_local 2).any.followed fun more => hrepeated _ _
        · split
          · exact (lowNumber_local 3).any.followed fun more => hrepeated _ _
          · exact (lowNumber_local 7).any.followed fun more => hrepeated _ _

theorem readPlainHead_local : readPlainHead.Local 0 := by
  refine alignToByte_local.followed fun _ => (lowNumber_local 16).any.followed fun size =>
    (lowNumber_local 16).any.followed fun check => ?_
  split
  · exact .pure _
  · exact corrupt_local

theorem readCodedHead_local : readCodedHead.Local 0 := by
  refine (lowNumber_local 5).any.followed fun literalCount =>
    (lowNumber_local 5).any.followed fun distanceCount =>
    (lowNumber_local 4).any.followed fun lengthCount => ?_
  dsimp only
  split
  · exact corrupt_local
  · refine (times_local (lowNumber_local 3).any _).followed fun given => ?_
    split
    · exact corrupt_local
    · refine (readLengths_local _ _ _ _).followed fun lengths => ?_
      split
      · exact .pure _
      · exact corrupt_local

/-- The front of a block takes a bit at least. -/
theorem readHead_local : readHead.Local 1 := by
  refine bit_local.followed fun last => (lowNumber_local 2).any.followed fun kind => ?_
  split
  · exact readPlainHead_local.map
  · exact .pure _
  · exact readCodedHead_local.map
  · exact corrupt_local

/-- No literal of the block is without bits. -/
def BlockHead.Spelled : BlockHead → Prop
  | .plain _ => True
  | .coded literals _ => literals.Spelled

theorem readPlainHead_yields : readPlainHead.Yields BlockHead.Spelled := by
  refine .last fun _ => .last fun size => .last fun check => ?_
  split
  · exact .pure trivial
  · exact corrupt_yields

theorem readCodedHead_yields : readCodedHead.Yields BlockHead.Spelled := by
  refine .last fun literalCount => .last fun distanceCount =>
    .last fun lengthCount => ?_
  dsimp only
  split
  · exact corrupt_yields
  · refine .last fun given => ?_
    split
    · exact corrupt_yields
    · refine .last fun lengths => ?_
      split
      · next hliterals _ => exact .pure (codeOfLengths?_spelled hliterals)
      · exact corrupt_yields

theorem readHead_yields : readHead.Yields fun read => read.2.Spelled := by
  refine .last fun last => .last fun kind => ?_
  split
  · exact readPlainHead_yields.bind fun head h => .pure h
  · exact .pure trivial
  · exact readCodedHead_yields.bind fun head h => .pure h
  · exact corrupt_yields

/-! ### Steps -/

/-- The state with more bytes behind the input. -/
def State.more (s : State) (extra : List UInt8) : State := { s with bits := s.bits.more extra }

theorem State.more_bits (s : State) (extra : List UInt8) :
    (s.more extra).bits = s.bits.more extra := rfl

/-- No literal of the block is without bits. -/
def Stage.Spelled : Stage → Prop
  | .items literals _ => literals.Spelled
  | _ => True

/-- What holds of the decoder between two steps. -/
structure State.Sound (s : State) : Prop where
  short : s.bits.Short
  length_le : s.bits.bytes.length ≤ s.size
  spelled : s.stage.Spelled

/-- The decoder has read on from the state `s`, and a bit at least. -/
structure State.Advances (s s' : State) : Prop where
  leadsTo : ∃ bits, 1 ≤ bits.length ∧ s.bits.LeadsTo bits s'.bits
  size_eq : s'.size = s.size
  spelled : s'.stage.Spelled

variable {s s' : State} {output output' : ByteArray} {left : Nat}

theorem State.Advances.sound (h : s.Advances s') (hs : s.Sound) : s'.Sound := by
  obtain ⟨bits, -, hlead⟩ := h.leadsTo
  refine ⟨hlead.short, ?_, h.spelled⟩
  rw [h.size_eq]
  exact hlead.suffix.length_le.trans hs.length_le

theorem State.Advances.left_lt (h : s.Advances s') :
    s'.bits.toList.length < s.bits.toList.length := by
  obtain ⟨bits, hlength, hlead⟩ := h.leadsTo
  rw [hlead.length_toList]
  omega

/-- Behind a block, nothing is read before the next one. -/
theorem afterBlock_again (h : s.afterBlock = .again s') :
    s'.bits = s.bits ∧ s'.size = s.size ∧ s'.stage.Spelled := by
  rw [State.afterBlock] at h
  split at h
  · cases h
  · obtain rfl := Continuation.again.inj h
    exact ⟨rfl, rfl, trivial⟩

theorem beforePlain_again (h : s.beforePlain left = .again s') :
    s'.bits = s.bits ∧ s'.size = s.size ∧ s'.stage.Spelled := by
  rw [State.beforePlain] at h
  split at h
  · exact afterBlock_again h
  · obtain rfl := Continuation.again.inj h
    exact ⟨rfl, rfl, trivial⟩

theorem stepHead_again (hs : s.Sound) (h : stepHead s output = (output', .again s')) :
    s.Advances s' := by
  cases hread : readHead.run s.bits with
  | error fault =>
    rw [stepHead, hread] at h
    exact absurd (Prod.mk.inj h).2 (Continuation.ofFault_ne_again fault s')
  | ok read =>
    have hleads := readHead_local.leadsTo hs.short hread
    have hspelled := readHead_yields.of_run hread
    obtain ⟨⟨last, head⟩, bits⟩ := read
    rw [stepHead, hread] at h
    cases head with
    | plain size =>
      obtain ⟨hbits, hsize, hstage⟩ := beforePlain_again (Prod.mk.inj h).2
      exact ⟨hbits ▸ hleads, hsize, hstage⟩
    | coded literals distances =>
      obtain rfl := Continuation.again.inj (Prod.mk.inj h).2
      exact ⟨hleads, rfl, hspelled⟩

theorem stepPlain_again (h : stepPlain s left output = (output', .again s')) : s.Advances s' := by
  cases hbytes : s.bits.bytes with
  | nil => simp [stepPlain, hbytes] at h
  | cons byte bytes =>
    rw [stepPlain, hbytes] at h
    obtain ⟨hbits, hsize, hstage⟩ := beforePlain_again (Prod.mk.inj h).2
    refine ⟨⟨s.bits.pending ++ BitOrder.lowFirst.unpack byte, by simp, ?_⟩, hsize, hstage⟩
    rw [hbits]
    exact ⟨by simp [BitSource.toList, hbytes], Nat.zero_lt_succ 7,
      hbytes ▸ List.suffix_cons byte bytes⟩

theorem stepItem_again {literals distances : Code} (hs : s.Sound)
    (hstage : s.stage = .items literals distances)
    (h : stepItem s literals distances output = (output', .again s')) : s.Advances s' := by
  have hspelled := hs.spelled
  rw [hstage] at hspelled
  cases hread : (readItem literals distances).run s.bits with
  | error fault =>
    rw [stepItem, hread] at h
    exact absurd (Prod.mk.inj h).2 (Continuation.ofFault_ne_again fault s')
  | ok read =>
    have hleads := (readItem_local hspelled distances).leadsTo hs.short hread
    obtain ⟨item, bits⟩ := read
    rw [stepItem, hread] at h
    cases item with
    | literal byte =>
      obtain rfl := Continuation.again.inj (Prod.mk.inj h).2
      exact ⟨hleads, rfl, hs.spelled⟩
    | copy length distance =>
      obtain rfl := Continuation.again.inj (Prod.mk.inj h).2
      exact ⟨hleads, rfl, hs.spelled⟩
    | endOfBlock =>
      obtain ⟨hbits, hsize, hstage⟩ := afterBlock_again (Prod.mk.inj h).2
      exact ⟨hbits ▸ hleads, hsize, hstage⟩

/-- A step reads a bit at least. -/
theorem step_again (hs : s.Sound) (h : decoder.step s output = (output', .again s')) :
    s.Advances s' := by
  simp only [decoder] at h
  split at h
  · exact stepHead_again hs h
  · exact stepPlain_again h
  · next literals distances hstage => exact stepItem_again hs hstage h

variable {extra : List UInt8}

theorem afterBlock_more (s : State) (extra : List UInt8) :
    (s.more extra).afterBlock = s.afterBlock.map (·.more extra) := by
  rw [State.afterBlock, State.afterBlock]
  cases hlast : s.last <;> simp [State.more, hlast, Continuation.map]

theorem beforePlain_more (s : State) (left : Nat) (extra : List UInt8) :
    (s.more extra).beforePlain left = (s.beforePlain left).map (·.more extra) := by
  rw [State.beforePlain, State.beforePlain, afterBlock_more]
  split
  · rfl
  · rfl

theorem stepHead_more (extra : List UInt8) (hs : s.Sound)
    (hne : (stepHead s output).2 ≠ .stuck .truncated) :
    stepHead (s.more extra) output =
      ((stepHead s output).1, (stepHead s output).2.map (·.more extra)) := by
  rw [stepHead, stepHead, State.more_bits]
  rcases readHead_local.run_more hs.short extra with
    ⟨fault, hread, hmore⟩ | ⟨⟨last, head⟩, bits, hread, hmore⟩
  · rw [stepHead, hread] at hne
    rw [hread, hmore (fun h => hne (by rw [h]; rfl))]
    simp only [Continuation.map_ofFault]
  · rw [hread, hmore]
    cases head with
    | plain size => exact congrArg (output, ·) (beforePlain_more { s with bits, last } size extra)
    | coded literals distances => rfl

theorem stepPlain_more (extra : List UInt8)
    (hne : (stepPlain s left output).2 ≠ .stuck .truncated) :
    stepPlain (s.more extra) left output =
      ((stepPlain s left output).1, (stepPlain s left output).2.map (·.more extra)) := by
  cases hbytes : s.bits.bytes with
  | nil => simp [stepPlain, hbytes] at hne
  | cons byte bytes =>
    have hmore : (s.more extra).bits.bytes = byte :: (bytes ++ extra) := by
      rw [State.more, BitSource.more, hbytes, List.cons_append]
    rw [stepPlain, hmore, stepPlain, hbytes]
    exact congrArg (output.push byte, ·)
      (beforePlain_more { s with bits := ⟨[], bytes⟩ } (left - 1) extra)

theorem stepItem_more {literals distances : Code} (extra : List UInt8) (hs : s.Sound)
    (hstage : s.stage = .items literals distances)
    (hne : (stepItem s literals distances output).2 ≠ .stuck .truncated) :
    stepItem (s.more extra) literals distances output =
      ((stepItem s literals distances output).1,
        (stepItem s literals distances output).2.map (·.more extra)) := by
  have hspelled := hs.spelled
  rw [hstage] at hspelled
  rw [stepItem, stepItem, State.more_bits]
  rcases (readItem_local hspelled distances).run_more hs.short extra with
    ⟨fault, hread, hmore⟩ | ⟨item, bits, hread, hmore⟩
  · rw [stepItem, hread] at hne
    rw [hread, hmore (fun h => hne (by rw [h]; rfl))]
    simp only [Continuation.map_ofFault]
  · rw [hread, hmore]
    cases item with
    | literal byte => rfl
    | copy length distance => rfl
    | endOfBlock => exact congrArg (output, ·) (afterBlock_more { s with bits } extra)

/-- More input makes no difference to a step, unless it lacks a bit. -/
theorem step_more (extra : List UInt8) (hs : s.Sound)
    (hne : (decoder.step s output).2 ≠ .stuck .truncated) :
    decoder.step (s.more extra) output =
      ((decoder.step s output).1, (decoder.step s output).2.map (·.more extra)) := by
  have hsame : (s.more extra).stage = s.stage := rfl
  simp only [decoder, hsame] at hne ⊢
  cases hstage : s.stage with
  | head =>
    simp only [hstage] at hne ⊢
    exact stepHead_more extra hs hne
  | plain left =>
    simp only [hstage] at hne ⊢
    exact stepPlain_more extra hne
  | items literals distances =>
    simp only [hstage] at hne ⊢
    exact stepItem_more extra hs hstage hne

theorem State.Sound.of_more (hs : (s.more extra).Sound) : s.Sound where
  short := hs.short
  length_le := by
    have hlength : (s.bits.bytes ++ extra).length ≤ s.size := hs.length_le
    rw [List.length_append] at hlength
    omega
  spelled := hs.spelled

theorem State.more_nil (s : State) : s.more [] = s := by
  rw [State.more, BitSource.more_nil]

/-! ### Input -/

theorem start_sound (input : ByteArray) : (decoder.start input).Sound :=
  ⟨BitSource.short_ofBytes _, by simp [decoder, BitSource.ofBytes], trivial⟩

/-- There are steps enough to read all of the input. -/
theorem start_left (input : ByteArray) :
    (decoder.start input).bits.toList.length < decoder.steps input := by
  simp only [decoder, BitSource.toList_ofBytes, BitOrder.length_flatMap_unpack,
    Array.length_toList, ByteArray.size_data]
  omega

theorem exists_fetched (s : State) : ∃ rest, (decoder.fetched s).more rest = s := by
  obtain ⟨rest, hrest⟩ := s.bits.exists_fetched_more windowSize s.size
  refine ⟨rest, ?_⟩
  simp only [decoder, State.more, hrest]

/-- A decoder that works on what has been fetched needs no more than is fetched later. -/
theorem fetched_again {rest : List UInt8} (hs : (s.more rest).Sound)
    (hfetched : decoder.fetched (s.more rest) = s.more extra)
    (h : decoder.step s output = (output', .again s')) :
    ∃ extra', decoder.fetched (s'.more rest) = s'.more extra' := by
  have hadvances := step_again hs.of_more h
  obtain ⟨bits, -, hlead⟩ := hadvances.leadsTo
  obtain ⟨extra', hextra⟩ := BitSource.exists_fetched_eq_more (by decide) hs.length_le rfl
    (congrArg State.bits hfetched) hlead
  have hsize : (s'.more rest).size = (s.more rest).size := hadvances.size_eq
  refine ⟨extra', ?_⟩
  rw [← hsize] at hextra
  simp only [decoder, State.more] at hextra ⊢
  rw [hextra]

theorem room_mono {limit limit' : Nat} (h : limit ≤ limit') :
    decoder.room limit ≤ decoder.room limit' := by
  simp only [decoder]
  exact Nat.mul_le_mul_right _ (Nat.div_le_div_right (by omega))

/-- The decoder can be stopped anywhere. -/
def incremental : decoder.Incremental where
  toSequential := decoder_sequential
  Sound := State.Sound
  more := State.more
  left s := s.bits.toList.length
  start_sound := start_sound
  start_left := start_left
  sound_of_more hs := hs.of_more
  step_again hs h := ⟨(step_again hs h).sound hs, (step_again hs h).left_lt⟩
  step_more extra _ hs hne := step_more extra hs hne
  exists_fetched := exists_fetched
  fetched_again := fetched_again
  more_nil := State.more_nil
  room_mono h := room_mono h

end Folio.Deflate
