import Folio.Deflate.Encode
import Folio.Proofs.Stream.Bits
import Folio.Proofs.Stream.Payload
import Folio.Stream.Codec

/-!
# Deflate streams are decoded to the data they were made from

The encoder of this library decodes what it proposes before it lets it stand, and otherwise writes
the data as it is. So its law rests on the blocks of bytes as they are: the front of such a block
is read from the five bytes that are written for it, and each of the bytes after it is put out in a
step of its own.

## Main definitions

* `plainBlocks` — the bytes of blocks that hold data as it is

## Main results

* `run_plainBlocks` — what the decoder makes of these blocks
* `lawful` — decoding undoes encoding at every level
-/

namespace Folio.Deflate

open BitReader

/-! ### The front of a block -/

theorem ofLowBits_lowBits_append (n : Nat) (bits : List Bool) :
    ofLowBits (lowBits 8 n ++ bits) = n % 256 + 256 * ofLowBits bits := by
  simp only [lowBits, List.cons_append, List.nil_append, ofLowBits, toNat_mod_two_eq_one]
  omega

/-- A word is read from its two bytes. -/
theorem word_reads (w : UInt16) :
    (lowNumber 16 : Reader Nat).Reads ((le16 w).flatMap BitOrder.lowFirst.unpack) w.toNat := by
  have hread : (lowNumber ((le16 w).flatMap BitOrder.lowFirst.unpack).length : Reader Nat).Reads
      ((le16 w).flatMap BitOrder.lowFirst.unpack)
      (ofLowBits ((le16 w).flatMap BitOrder.lowFirst.unpack)) := lowNumber_reads _
  have hvalue : ofLowBits ((le16 w).flatMap BitOrder.lowFirst.unpack) = w.toNat := by
    have := w.toNat_lt
    simp only [le16, List.flatMap_cons, List.flatMap_nil, BitOrder.unpack, List.append_nil]
    rw [ofLowBits_lowBits_append, ← List.append_nil (lowBits 8 _), ofLowBits_lowBits_append,
      UInt8.toNat_ofNat', UInt8.toNat_ofNat', ofLowBits]
    omega
  rwa [hvalue, BitOrder.length_flatMap_unpack] at hread

/-- The first byte of a block that holds bytes as they are. -/
theorem unpack_first (last : Bool) :
    BitOrder.lowFirst.unpack (if last then 1 else 0) =
      [last, false, false] ++ List.replicate 5 false := by
  cases last <;> decide

/-- The two words after the first byte. -/
def plainWords (size : Nat) : List UInt8 :=
  le16 (UInt16.ofNat size) ++ le16 (UInt16.ofNat (maxPlain - size))

theorem plainHead_eq (last : Bool) (size : Nat) :
    plainHead last size = (if last then 1 else 0) :: plainWords size := rfl

theorem toNat_ofNat_of_le_maxPlain {n : Nat} (h : n ≤ maxPlain) : (UInt16.ofNat n).toNat = n := by
  simp only [maxPlain] at h
  rw [UInt16.toNat_ofNat']
  omega

/-- Reads the second word and compares it with the first one. -/
def readCheck (size : Nat) : Reader BlockHead := do
  let check ← lowNumber 16
  if size + check = 65535 then return .plain size else corrupt

theorem readPlainHead_eq (s : BitSource .lowFirst) :
    readPlainHead.run s =
      (lowNumber 16 >>= readCheck : Reader BlockHead).run (.ofBytes .lowFirst s.bytes) := rfl

theorem readCheck_reads {size : Nat} (hsize : size ≤ maxPlain) :
    (readCheck size).Reads
      ((le16 (UInt16.ofNat (maxPlain - size))).flatMap BitOrder.lowFirst.unpack)
      (.plain size) := by
  have hsum : size + (UInt16.ofNat (maxPlain - size)).toNat = 65535 := by
    rw [toNat_ofNat_of_le_maxPlain (Nat.sub_le _ _)]
    exact Nat.add_sub_cancel' hsize
  refine (word_reads (UInt16.ofNat (maxPlain - size))).last ?_
  rw [if_pos hsum]
  exact .pure _

/-- The size of a block is read from its two words, whatever is left of the byte before them. -/
theorem readPlainHead_run {size : Nat} (hsize : size ≤ maxPlain) {s : BitSource .lowFirst}
    {rest : List UInt8} (h : s.bytes = plainWords size ++ rest) :
    readPlainHead.run s = .ok (.plain size, .ofBytes .lowFirst rest) := by
  have hreads : (lowNumber 16 >>= readCheck : Reader BlockHead).Reads
      ((plainWords size).flatMap BitOrder.lowFirst.unpack) (.plain size) := by
    rw [plainWords, List.flatMap_append]
    refine (word_reads (UInt16.ofNat size)).bind ?_
    rw [toNat_ofNat_of_le_maxPlain hsize]
    exact readCheck_reads hsize
  obtain ⟨s', hrun, hlead, hrest⟩ := hreads (.ofBytes .lowFirst s.bytes)
    (rest.flatMap BitOrder.lowFirst.unpack) (BitSource.short_ofBytes _)
    (by rw [BitSource.toList_ofBytes, h, List.flatMap_append])
  have hsuffix : rest <:+ (BitSource.ofBytes BitOrder.lowFirst s.bytes).bytes := by
    rw [h]
    exact List.suffix_append _ _
  rw [readPlainHead_eq, hrun, hlead.eq_ofBytes hsuffix hrest]

/-- The front of a block is read from its five bytes. -/
theorem readHead_run (last : Bool) {size : Nat} (hsize : size ≤ maxPlain) (rest : List UInt8) :
    readHead.run (.ofBytes .lowFirst (plainHead last size ++ rest)) =
      .ok ((last, .plain size), .ofBytes .lowFirst rest) := by
  have hbits : (BitSource.ofBytes BitOrder.lowFirst (plainHead last size ++ rest)).toList =
      [last] ++ ([false, false] ++ (List.replicate 5 false ++
        (plainWords size ++ rest).flatMap BitOrder.lowFirst.unpack)) := by
    rw [BitSource.toList_ofBytes, plainHead_eq, List.cons_append, List.flatMap_cons, unpack_first]
    rfl
  obtain ⟨s₁, hlast, hlead₁, hrest₁⟩ := bit_reads last _ _ (BitSource.short_ofBytes _) hbits
  obtain ⟨s₂, hkind, hlead₂, hrest₂⟩ :=
    lowNumber_reads [false, false] s₁ _ hlead₁.short hrest₁
  -- Fewer than eight bits are left of the first byte, so the words behind it are untouched.
  have hbytes : s₂.bytes = plainWords size ++ rest := by
    refine (hlead₁.trans hlead₂).bytes_eq (List.suffix_cons _ _) ?_
    rw [hrest₂, List.length_append, List.length_replicate, BitOrder.length_flatMap_unpack]
    omega
  have hplain := readPlainHead_run hsize hbytes
  have hkind' : (lowNumber 2 : Reader Nat).run s₁ = .ok (0, s₂) := hkind
  rw [readHead, run_bind, hlast]
  simp only [Except.bind]
  rw [run_bind, hkind']
  simp only [Except.bind]
  rw [run_bind, hplain]
  rfl

/-! ### Blocks -/

/-- The bytes of `more + 1` blocks that hold the data as it is. -/
def plainBlocks : (more : Nat) → (data : List UInt8) → List UInt8
  | 0, data => plainHead true data.length ++ data
  | more + 1, data =>
    plainHead false (data.take maxPlain).length ++
      (data.take maxPlain ++ plainBlocks more (data.drop maxPlain))

theorem data_encodePlainFrom (data : ByteArray) (more place : Nat) (stream : ByteArray) :
    (encodePlainFrom data more place stream).data.toList =
      stream.data.toList ++ plainBlocks more (data.data.toList.drop place) := by
  induction more generalizing place stream with
  | zero =>
    have hblock : (data.extract place data.size).data.toList = data.data.toList.drop place := by
      rw [ByteArray.data_extract, Array.toList_extract, List.extract_eq_take_drop]
      exact List.take_of_length_le (by simp)
    have hsize : (data.extract place data.size).size = (data.data.toList.drop place).length :=
      congrArg List.length hblock
    simp [encodePlainFrom, plainBlocks, hsize]
  | succ more ih =>
    have hblock : (data.extract place (place + maxPlain)).data.toList =
        (data.data.toList.drop place).take maxPlain := by
      rw [ByteArray.data_extract, Array.toList_extract, List.extract_eq_take_drop,
        Nat.add_sub_cancel_left]
    have hsize : (data.extract place (place + maxPlain)).size =
        ((data.data.toList.drop place).take maxPlain).length := congrArg List.length hblock
    rw [encodePlainFrom, ih, plainBlocks, List.drop_drop]
    simp [hsize]

theorem data_encodePlain (data : ByteArray) :
    (encodePlain data).data.toList =
      plainBlocks ((data.size - 1) / maxPlain) data.data.toList := by
  rw [encodePlain, data_encodePlainFrom]
  rfl

/-! ### Steps -/

/-- A run of the decoder to the end of the stream. -/
def runFrom (steps : Nat) (s : State) (output : ByteArray) : ByteArray × Continuation State :=
  decoder.run none steps s output

/-- How a run goes on after a step. -/
def resume (steps : Nat) : ByteArray × Continuation State → ByteArray × Continuation State :=
  decoder.resume steps

theorem resume_again (steps : Nat) (s : State) (output : ByteArray) :
    resume steps (output, .again s) = runFrom steps s output := rfl

theorem runFrom_head {s : State} (h : s.stage = .head) (steps : Nat) (output : ByteArray) :
    runFrom (steps + 1) s output = resume steps (stepHead s output) := by
  have hstep : decoder.step s output = stepHead s output := by
    simp only [decoder, h]
  exact StreamDecoder.run_of_step hstep

theorem runFrom_plain {s : State} {left : Nat} (h : s.stage = .plain left) (steps : Nat)
    (output : ByteArray) :
    runFrom (steps + 1) s output = resume steps (stepPlain s left output) := by
  have hstep : decoder.step s output = stepPlain s left output := by
    simp only [decoder, h]
  exact StreamDecoder.run_of_step hstep

/-- The bytes of a block are put out one by one. -/
theorem resume_beforePlain (steps : Nat) (s : State) (block rest : List UInt8) (output : ByteArray)
    (h : s.bits = .ofBytes .lowFirst (block ++ rest)) :
    resume (block.length + steps) (output, s.beforePlain block.length) =
      resume steps (output ++ block.toByteArray,
        { s with bits := .ofBytes .lowFirst rest }.afterBlock) := by
  induction block generalizing s output with
  | nil =>
    rw [List.nil_append] at h
    simp [State.beforePlain, ← h]
  | cons b block ih =>
    have hlength : (b :: block).length + steps = block.length + steps + 1 := by
      rw [List.length_cons]
      omega
    rw [hlength, List.length_cons, State.beforePlain, if_neg (Nat.succ_ne_zero _), resume_again,
      runFrom_plain rfl, stepPlain]
    simp only [h, BitSource.ofBytes, List.cons_append]
    rw [append_toByteArray_cons]
    exact ih _ _ rfl

/-- The front of a block is read in one step. -/
theorem runFrom_plainHead (steps : Nat) {s : State} (last : Bool) {size : Nat}
    (hsize : size ≤ maxPlain) {rest : List UInt8} (output : ByteArray) (hstage : s.stage = .head)
    (h : s.bits = .ofBytes .lowFirst (plainHead last size ++ rest)) :
    runFrom (steps + 1) s output =
      resume steps (output,
        { s with bits := .ofBytes .lowFirst rest, last }.beforePlain size) := by
  rw [runFrom_head hstage, stepHead, h, readHead_run last hsize rest]

/-- The decoder gets the data back that blocks hold as it is. -/
theorem run_plainBlocks (more : Nat) (s : State) (data : List UInt8) (output : ByteArray)
    (hsize : data.length ≤ maxPlain * (more + 1)) (hstage : s.stage = .head)
    (h : s.bits = .ofBytes .lowFirst (plainBlocks more data)) :
    runFrom (data.length + more + 1) s output = (output ++ data.toByteArray, .finished) := by
  induction more generalizing s data output with
  | zero =>
    rw [runFrom_plainHead _ true (by omega) output hstage h]
    exact resume_beforePlain 0 _ data [] output (by rw [List.append_nil])
  | succ more ih =>
    -- A block takes one step for its front and one for each of its bytes.
    have hfirst : (data.take maxPlain).length ≤ maxPlain := List.length_take_le _ _
    have hsteps : data.length + (more + 1) =
        (data.take maxPlain).length + ((data.drop maxPlain).length + more + 1) := by
      rw [List.length_take, List.length_drop]
      omega
    rw [runFrom_plainHead _ false hfirst output hstage h, hsteps,
      resume_beforePlain _ _ _ _ output rfl]
    have hrest := ih { s with
      bits := .ofBytes .lowFirst (plainBlocks more (data.drop maxPlain))
      last := false
      stage := .head } (data.drop maxPlain) (output ++ (data.take maxPlain).toByteArray) (by
        rw [Nat.mul_succ] at hsize
        rw [List.length_drop]
        omega) rfl rfl
    -- The block and what follows it make up the data.
    have hdata : output ++ (data.take maxPlain).toByteArray ++ (data.drop maxPlain).toByteArray =
        output ++ data.toByteArray := by
      apply ByteArray.ext
      apply Array.toList_inj.mp
      simp
    rw [hdata] at hrest
    exact hrest

/-! ### Streams -/

theorem length_plainBlocks (more : Nat) (data : List UInt8) :
    (plainBlocks more data).length = data.length + 5 * (more + 1) := by
  induction more generalizing data with
  | zero =>
    simp [plainBlocks, plainHead]
    omega
  | succ more ih =>
    simp only [plainBlocks, plainHead, List.length_append, List.length_cons, length_le16, ih,
      List.length_take, List.length_drop]
    omega

/-- Data that is written as it is can be decoded. -/
theorem full_encodePlain (data : ByteArray) :
    decoder.full (encodePlain data) = ⟨data, none⟩ := by
  have hbytes := data_encodePlain data
  have hsize := (congrArg List.length hbytes).trans (length_plainBlocks _ _)
  have hrun := run_plainBlocks ((data.size - 1) / maxPlain) (decoder.start (encodePlain data))
    data.data.toList .empty (by
      rw [Array.length_toList, ByteArray.size_data, maxPlain]
      omega) rfl (congrArg (BitSource.ofBytes .lowFirst) hbytes)
  rw [empty_append_toByteArray] at hrun
  -- The decoder has a step for each bit, which are more than it needs.
  refine StreamDecoder.full_of_run hrun ?_
  have hsteps : decoder.steps (encodePlain data) = 8 * (encodePlain data).size + 1 := rfl
  rw [Array.length_toList, ByteArray.size_data] at hsize
  rw [hsteps, hsize]
  omega

theorem copyBack_extends (distance count : Nat) (output : ByteArray) :
    output.data.toList <+: (copyBack distance count output).data.toList := by
  induction count generalizing output with
  | zero => exact List.prefix_rfl
  | succ count ih =>
    rw [copyBack]
    exact (push_extends _ _).trans (ih _)

theorem stepHead_output (s : State) (output : ByteArray) : (stepHead s output).1 = output := by
  rw [stepHead]
  split
  · rfl
  · rfl
  · rfl

theorem stepPlain_extends (s : State) (left : Nat) (output : ByteArray) :
    output.data.toList <+: (stepPlain s left output).1.data.toList := by
  rw [stepPlain]
  split
  · exact List.prefix_rfl
  · exact push_extends _ _

theorem stepItem_extends (s : State) (literals distances : Code) (output : ByteArray) :
    output.data.toList <+: (stepItem s literals distances output).1.data.toList := by
  rw [stepItem]
  split
  · exact List.prefix_rfl
  · exact push_extends _ _
  · exact List.prefix_rfl
  · exact copyBack_extends _ _ _

/-- A step of the decoder takes nothing back. -/
theorem step_extends (s : State) (output : ByteArray) :
    output.data.toList <+: (decoder.step s output).1.data.toList := by
  simp only [decoder]
  split
  · rw [stepHead_output]
  · exact stepPlain_extends _ _ _
  · exact stepItem_extends _ _ _ _

/-- A stream takes no more bytes than the data does as it is. -/
theorem size_encode_le (level : Nat) (data : ByteArray) :
    (encode level data).size ≤ data.size + 5 * ((data.size - 1) / maxPlain + 1) := by
  have hplain : (encodePlain data).size = data.size + 5 * ((data.size - 1) / maxPlain + 1) :=
    (congrArg List.length (data_encodePlain data)).trans (length_plainBlocks _ _)
  simp only [encode]
  split_ifs with hshorter hchecked
  · exact hplain ▸ hshorter.le
  · exact hplain.le
  · exact hplain.le

/-- Decoding undoes encoding at every level. -/
theorem lawful : StreamCodec.Lawful ⟨encode, decoder⟩ 0 where
  step_extends := step_extends
  full_encode level data _ _ := by
    change decoder.full (encode level data) = _
    simp only [encode]
    -- A stream of items is used only if it has been decoded to the data before.
    split_ifs with hshorter hchecked
    · exact StreamDecoder.full_of_checked hchecked
    · exact full_encodePlain data
    · exact full_encodePlain data

end Folio.Deflate
