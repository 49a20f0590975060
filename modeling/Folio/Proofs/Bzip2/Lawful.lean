import Folio.Proofs.Bzip2.SingleBlock
import Folio.Proofs.Stream.Payload
import Folio.Stream.Codec

/-!
# Bzip2 streams are decoded to the data they were made from

The encoder of this library decodes what it proposes before it lets it stand, and otherwise writes
every byte as a block of its own. So its law rests on these blocks: each of them is read and put
out in one step, and the decoder combines their checksums as the encoder does.

## Main results

* `expand_singleContent` — the output of a block of a single byte
* `run_singleBlocks` — what the decoder makes of such blocks and the end of the stream
* `lawful` — decoding undoes encoding at every level
-/

namespace Folio.Bzip2

open BitReader

/-! ### The output of a block -/

theorem placesByByte_singleton (b : UInt8) :
    placesByByte [b].toByteArray = (Array.replicate 256 #[]).modify b.toNat (·.push 0) := by
  rw [placesByByte]
  simp only [List.data_toByteArray, List.toList_toArray, List.zipIdx_cons, List.zipIdx_nil,
    List.foldl_cons, List.foldl_nil]

/-- A column of one byte has no place but the first. -/
theorem mem_placesByByte {b : UInt8} {places : Array Nat} {place : Nat}
    (h : places ∈ placesByByte [b].toByteArray) (hplace : place ∈ places) : place = 0 := by
  rw [placesByByte_singleton] at h
  obtain ⟨i, hi, rfl⟩ := Array.getElem_of_mem h
  rw [Array.getElem_modify, Array.getElem_replicate] at hplace
  split_ifs at hplace
  · simpa using hplace
  · simp at hplace

theorem getD_successors (b : UInt8) : (successors [b].toByteArray).getD 0 0 = 0 := by
  have hflatten : successors [b].toByteArray = (placesByByte [b].toByteArray).flatten := by
    have h : (placesByByte [b].toByteArray).foldl (· ++ id ·) #[] =
        #[] ++ ((placesByByte [b].toByteArray).map id).flatten :=
      Array.foldl_append_eq_append
    rwa [Array.map_id, Array.empty_append] at h
  rw [Array.getD_eq_getD_getElem?]
  cases h : (successors [b].toByteArray)[0]? with
  | none => rfl
  | some place =>
    have hmem := Array.mem_of_getElem? h
    rw [hflatten, Array.mem_flatten] at hmem
    obtain ⟨places, hplaces, hplace⟩ := hmem
    exact mem_placesByByte hplaces hplace

/-- A block of a single byte puts out this byte. -/
theorem expand_singleContent (b : UInt8) (output : ByteArray) :
    (singleContent b).expand output = (output.push b, true) := by
  have hfollow : unrotate [b].toByteArray 0 2 = [b, b].toByteArray := by
    simp only [unrotate, getD_successors, follow]
    rfl
  have hsize : (singleContent b).column.size = 1 := rfl
  have hrotate : unrotate (singleContent b).column (singleContent b).origin 2 =
      [b, b].toByteArray := hfollow
  rw [Block.expand, hsize]
  simp only [hrotate]
  rfl

/-! ### Parts of a stream -/

theorem byte_reads {n : Nat} (h : n < 256) : (highNumber 8 : Reader Nat).Reads (highBits 8 n) n :=
  highNumber_reads h

/-- Expected bytes are read. -/
theorem expectBytes_reads (bytes : List Nat) (h : ∀ n ∈ bytes, n < 256) :
    (expectBytes bytes).Reads (bytes.flatMap (highBits 8)) () := by
  induction bytes with
  | nil => exact .pure ()
  | cons n bytes ih =>
    rw [List.forall_mem_cons] at h
    refine (byte_reads h.1).bind ?_
    rw [if_pos rfl]
    exact ih h.2

theorem expectMagic_reads (bytes : List Nat) (h : ∀ n ∈ bytes, n < 256) :
    (expectMagic bytes).Reads (bytes.flatMap (highBits 8)) () := by
  induction bytes with
  | nil => exact .pure ()
  | cons n bytes ih =>
    rw [List.forall_mem_cons] at h
    refine (byte_reads h.1).bind ?_
    rw [if_pos rfl]
    exact ih h.2

theorem readSignature_block : readSignature.Reads (blockSignature.flatMap (highBits 8)) true := by
  refine (byte_reads (n := 0x31) (by decide)).bind ?_
  rw [if_neg (by decide), if_pos (by decide)]
  exact (expectBytes_reads blockSignature.tail (by decide)).last (.pure true)

theorem readSignature_end : readSignature.Reads (endSignature.flatMap (highBits 8)) false := by
  refine (byte_reads (n := 0x17) (by decide)).bind ?_
  rw [if_pos (by decide)]
  exact (expectBytes_reads endSignature.tail (by decide)).last (.pure false)

theorem readPart_block {level : Nat} (h : 1 ≤ level) (b : UInt8) :
    (readPart level).Reads (singleBlock b) (.block (singleContent b)) := by
  rw [singleBlock_eq]
  refine readSignature_block.bind ?_
  rw [if_pos rfl]
  exact (readBlock_reads h b).map (g := Part.block)

theorem readPart_end (level : Nat) (crc : UInt32) :
    (readPart level).Reads (endSignature.flatMap (highBits 8) ++ highBits 32 crc.toNat)
      (.streamEnd crc) := by
  have hcrc : (highNumber 32 : Reader Nat).Reads (highBits 32 crc.toNat) crc.toNat :=
    highNumber_reads (UInt32.toNat_lt _)
  have hend := hcrc.map (g := fun n => Part.streamEnd (UInt32.ofNat n))
  rw [UInt32.ofNat_toNat] at hend
  exact readSignature_end.bind hend

theorem readHeader_reads {level : Nat} (h : 1 ≤ level) (h' : level ≤ 9) :
    readHeader.Reads ([0x42, 0x5A, 0x68, 0x30 + level].flatMap (highBits 8)) level := by
  have hdigit : (0x31 ≤ 0x30 + level && 0x30 + level ≤ 0x39) = true := by
    simp only [Bool.and_eq_true, decide_eq_true_eq]
    omega
  refine (expectMagic_reads [0x42, 0x5A, 0x68] (by decide)).bind ?_
  refine (byte_reads (n := 0x30 + level) (by omega)).last ?_
  rw [if_pos hdigit, Nat.add_sub_cancel_left]
  exact .pure level

/-! ### Steps -/

/-- A run of the decoder to the end of the stream. -/
def runFrom (steps : Nat) (s : State) (output : ByteArray) : ByteArray × Continuation State :=
  decoder.run none steps s output

/-- How a run goes on after a step. -/
def resume (steps : Nat) : ByteArray × Continuation State → ByteArray × Continuation State :=
  decoder.resume steps

theorem resume_again (steps : Nat) (s : State) (output : ByteArray) :
    resume steps (output, .again s) = runFrom steps s output := rfl

theorem runFrom_part {s : State} {level : Nat} (h : s.level = some level) (steps : Nat)
    (output : ByteArray) :
    runFrom (steps + 1) s output = resume steps (stepPart s level output) := by
  have hstep : decoder.step s output = stepPart s level output := by
    simp only [decoder, h]
  exact StreamDecoder.run_of_step hstep

theorem extract_push (output : ByteArray) (b : UInt8) :
    (output.push b).extract output.size (output.push b).size = [b].toByteArray := by
  apply ByteArray.ext
  apply Array.toList_inj.mp
  rw [ByteArray.data_extract, Array.toList_extract, List.extract_eq_take_drop]
  simp

/-- A block of a single byte is one step. -/
theorem stepPart_block {s : State} {level : Nat} (hlevel : 1 ≤ level) (b : UInt8)
    {rest : List Bool} (output : ByteArray) (hs : s.bits.Short)
    (h : s.bits.toList = singleBlock b ++ rest) :
    ∃ bits, bits.Short ∧ bits.toList = rest ∧ stepPart s level output =
      (output.push b, .again { s with
        bits, combined := combineCrc s.combined (highCrc32 [b].toByteArray) }) := by
  obtain ⟨bits, hrun, hlead, hrest⟩ := readPart_block hlevel b s.bits rest hs h
  refine ⟨bits, hlead.short, hrest, ?_⟩
  have hcrc : (singleContent b).crc = highCrc32 [b].toByteArray := rfl
  rw [stepPart, hrun]
  simp only [expand_singleContent, extract_push, hcrc]
  rfl

/-- The end of the stream is reached with the right checksum. -/
theorem stepPart_end {s : State} {level : Nat} {rest : List Bool} (output : ByteArray)
    (hs : s.bits.Short)
    (h : s.bits.toList =
      endSignature.flatMap (highBits 8) ++ highBits 32 s.combined.toNat ++ rest) :
    stepPart s level output = (output, .finished) := by
  obtain ⟨bits, hrun, -⟩ := readPart_end level s.combined s.bits rest hs h
  rw [stepPart, hrun]
  simp

/-- The checksum of the checksums of single bytes. -/
def combined (crc : UInt32) (bytes : List UInt8) : UInt32 :=
  bytes.foldl (fun crc b => combineCrc crc (highCrc32 [b].toByteArray)) crc

/-- The decoder gets the bytes back that are written as blocks of their own. -/
theorem run_singleBlocks {s : State} {level : Nat} (hlevel : 1 ≤ level)
    (hs : s.level = some level) (bytes : List UInt8) {rest : List Bool} (output : ByteArray)
    (hshort : s.bits.Short)
    (h : s.bits.toList = bytes.flatMap singleBlock ++ (endSignature.flatMap (highBits 8) ++
      highBits 32 (combined s.combined bytes).toNat ++ rest)) :
    runFrom (bytes.length + 1) s output = (output ++ bytes.toByteArray, .finished) := by
  induction bytes generalizing s output with
  | nil =>
    rw [List.length_nil, runFrom_part hs, stepPart_end output hshort h]
    have houtput : output ++ [].toByteArray = output := ByteArray.append_empty
    rw [houtput]
    rfl
  | cons b bytes ih =>
    rw [List.flatMap_cons, List.append_assoc] at h
    obtain ⟨bits, hbits, hrest, hstep⟩ := stepPart_block hlevel b output hshort h
    -- The checksum is carried on from block to block, as the encoder sums it up.
    rw [List.length_cons, runFrom_part hs, hstep, resume_again]
    have hnext := ih (s := { s with
      bits, combined := combineCrc s.combined (highCrc32 [b].toByteArray) }) hs (output.push b)
      hbits hrest
    rw [hnext, append_toByteArray_cons]

/-! ### Streams -/

theorem length_le_length_flatMap_singleBlock (bytes : List UInt8) :
    8 * bytes.length ≤ (bytes.flatMap singleBlock).length := by
  induction bytes with
  | nil => exact Nat.le_refl _
  | cons b bytes ih =>
    -- The signature alone takes more than a byte.
    have hsignature : 8 ≤ (singleBlock b).length := by
      rw [singleBlock_eq, List.length_append]
      exact Nat.le_add_right_of_le (by decide)
    rw [List.flatMap_cons, List.length_append, List.length_cons]
    omega

/-- The bits of a stream that holds every byte as a block of its own. -/
theorem streamBits_eq (level : Nat) (bytes : List UInt8) :
    streamBits level (bytes.map fun b => (highCrc32 [b].toByteArray, singleBlock b)) =
      [0x42, 0x5A, 0x68, 0x30 + level].flatMap (highBits 8) ++ (bytes.flatMap singleBlock ++
        (endSignature.flatMap (highBits 8) ++ highBits 32 (combined 0 bytes).toNat)) := by
  simp only [streamBits, combined, List.flatMap_map, List.foldl_map, List.append_assoc]

/-- Data that is written byte by byte can be decoded. -/
theorem full_encodeSingly {level : Nat} (h : 1 ≤ level) (h' : level ≤ 9) (data : ByteArray) :
    decoder.full (encodeSingly level data) = ⟨data, none⟩ := by
  obtain ⟨padding, hpack⟩ := BitOrder.unpack_pack .highFirst
    (streamBits level (data.data.toList.map fun b => (highCrc32 [b].toByteArray, singleBlock b)))
  have hbits : (BitSource.ofBytes .highFirst (encodeSingly level data).data.toList).toList =
      [0x42, 0x5A, 0x68, 0x30 + level].flatMap (highBits 8) ++
        (data.data.toList.flatMap singleBlock ++
          (endSignature.flatMap (highBits 8) ++ highBits 32 (combined 0 data.data.toList).toNat ++
            padding)) := by
    rw [BitSource.toList_ofBytes, encodeSingly, hpack, streamBits_eq, List.append_assoc,
      List.append_assoc]
  obtain ⟨bits, hheader, hlead, hrest⟩ :=
    readHeader_reads h h' _ _ (BitSource.short_ofBytes _) hbits
  have hblocks := run_singleBlocks (s := ⟨bits, some level, 0, (encodeSingly level data).size⟩) h
    rfl data.data.toList .empty hlead.short hrest
  -- The first step reads the front of the stream, and every other one a block or the end.
  have hfirst : decoder.step (decoder.start (encodeSingly level data)) .empty =
      (.empty, .again ⟨bits, some level, 0, (encodeSingly level data).size⟩) := by
    simp only [decoder]
    rw [hheader]
  have hrun := (StreamDecoder.run_of_step hfirst).trans hblocks
  rw [empty_append_toByteArray] at hrun
  refine StreamDecoder.full_of_run hrun ?_
  have hlength := congrArg List.length hbits
  have hmany := length_le_length_flatMap_singleBlock data.data.toList
  have hsteps : decoder.steps (encodeSingly level data) = (encodeSingly level data).size + 1 := rfl
  rw [BitSource.toList_ofBytes, BitOrder.length_flatMap_unpack, List.length_append,
    List.length_append, List.length_append, List.length_append, length_highBits,
    Array.length_toList, ByteArray.size_data] at hlength
  rw [hsteps]
  omega

/-! ### Output -/

theorem appendCopies_extends (b : UInt8) (count : Nat) (output : ByteArray) :
    output.data.toList <+: (appendCopies b count output).data.toList := by
  induction count generalizing output with
  | zero => exact List.prefix_rfl
  | succ count ih => exact (push_extends output b).trans (ih (output.push b))

theorem Runs.push_extends (r : Runs) (b : UInt8) :
    r.output.data.toList <+: (r.push b).output.data.toList := by
  rw [Runs.push]
  split
  · exact appendCopies_extends _ _ _
  · split
    · exact Folio.push_extends _ _
    · exact Folio.push_extends _ _

theorem foldl_push_extends (bytes : List UInt8) (r : Runs) :
    r.output.data.toList <+: (bytes.foldl Runs.push r).output.data.toList := by
  induction bytes generalizing r with
  | nil => exact List.prefix_rfl
  | cons b bytes ih => exact (r.push_extends b).trans (ih (r.push b))

theorem expand_extends (b : Block) (output : ByteArray) :
    output.data.toList <+: (b.expand output).1.data.toList := by
  simp only [Block.expand]
  -- Whatever the text of the block is, its bytes are pushed one after another.
  generalize (if b.randomised then restore (unrotate b.column b.origin (b.column.size + 1))
    else unrotate b.column b.origin (b.column.size + 1)) = text
  split
  · exact (foldl_push_extends _ ⟨output, 0, 0⟩).trans (Runs.push_extends _ _)
  · exact foldl_push_extends _ ⟨output, 0, 0⟩

theorem stepPart_extends (s : State) (level : Nat) (output : ByteArray) :
    output.data.toList <+: (stepPart s level output).1.data.toList := by
  rw [stepPart]
  split
  · exact List.prefix_rfl
  · exact List.prefix_rfl
  · next block _ _ =>
    have hexpand := expand_extends block output
    generalize block.expand output = result at hexpand ⊢
    obtain ⟨output', complete⟩ := result
    simp only
    split
    · exact hexpand
    · split
      · exact hexpand
      · exact hexpand

/-- A step of the decoder takes nothing back. -/
theorem step_extends (s : State) (output : ByteArray) :
    output.data.toList <+: (decoder.step s output).1.data.toList := by
  simp only [decoder]
  split
  · exact stepPart_extends _ _ _
  · split
    · exact List.prefix_rfl
    · exact List.prefix_rfl

/-- Decoding undoes encoding at every level. -/
theorem lawful : StreamCodec.Lawful ⟨encode, decoder⟩ 1 where
  step_extends := step_extends
  full_encode level data h h' := by
    change decoder.full (encode level data) = _
    simp only [encode]
    -- A stream of large blocks is used only if it has been decoded to the data before.
    split_ifs with hchecked
    · exact StreamDecoder.full_of_checked hchecked
    · exact full_encodeSingly h h' data

end Folio.Bzip2
