import Folio.Bzip2.Encode
import Folio.Proofs.Stream.Bits

/-!
# Blocks of a single byte

A block of a single byte has one byte in use, and its column is one repetition of it. The two codes
that every block has to have give words to the two digits and to the end. So all of the block is the
same for every byte, but for its checksum and for the table of the bytes in use.

## Main results

* `readUsedBytes_reads` — the table of the bytes in use
* `readBlock_reads` — the block
-/

namespace Folio.Bzip2

open BitReader

/-! ### The bytes in use -/

/-- The things in use are read from their flags. -/
theorem filterMap_zipIdx_map_range (used : Nat → Bool) (n : Nat) :
    ((List.range n).map used).zipIdx.filterMap
      (fun (used, i) => if used then some i else none) = (List.range n).filter used := by
  induction n with
  | zero => rfl
  | succ n ih =>
    rw [List.range_succ, List.map_append, List.zipIdx_append, List.filterMap_append, ih,
      List.filter_append]
    cases h : used n <;> simp [h]

theorem readFlags_reads (used : Nat → Bool) :
    readFlags.Reads (flagBits used) ((List.range 16).filter used) := by
  have htimes := times_reads (r := (bit : Reader Bool)) (fun b => [b])
    ((List.range 16).map used) fun b _ => bit_reads b
  have hbits : ((List.range 16).map used).flatMap (fun b => [b]) = flagBits used := by
    simp [flagBits]
  rw [hbits, List.length_map, List.length_range] at htimes
  have hread := htimes.map (g := fun flags =>
    flags.zipIdx.filterMap fun (used, i) => if used then some i else none)
  rwa [filterMap_zipIdx_map_range] at hread

/-- A single thing is found by its flag. -/
theorem filter_range_eq_singleton {n k : Nat} {p : Nat → Bool} (hk : k < n)
    (hp : ∀ i < n, p i = true ↔ i = k) : (List.range n).filter p = [k] := by
  induction n with
  | zero => cases hk
  | succ n ih =>
    rw [List.range_succ, List.filter_append]
    by_cases hlast : n = k
    · subst hlast
      have hfirst : (List.range n).filter p = [] := by
        rw [List.filter_eq_nil_iff]
        intro i hi
        have := List.mem_range.mp hi
        rw [hp i (by omega)]
        omega
      have hn : p n = true := (hp n (by omega)).mpr rfl
      simp [hfirst, hn]
    · have hn : p n = false := by
        rw [← Bool.not_eq_true, hp n (by omega)]
        exact hlast
      rw [ih (by omega) fun i hi => hp i (by omega)]
      simp [hn]

/-- The only byte in use is read from the table. -/
theorem readUsedBytes_reads (b : UInt8) : readUsedBytes.Reads (usedBits [b]) [b] := by
  -- The table has a flag for each group of sixteen bytes, and then flags for one group only.
  have hgroups : (List.range 16).filter (fun group => [b].any fun b => b.toNat / 16 == group) =
      [b.toNat / 16] := by
    have := b.toNat_lt
    refine filter_range_eq_singleton (by omega) fun i _ => ?_
    rw [List.any_cons, List.any_nil, Bool.or_false, beq_iff_eq, eq_comm]
  have hplaces : (List.range 16).filter
      (fun i => [b].contains (UInt8.ofNat (16 * (b.toNat / 16) + i))) = [b.toNat % 16] := by
    refine filter_range_eq_singleton (Nat.mod_lt _ (by decide)) fun i hi => ?_
    have := b.toNat_lt
    simp only [List.contains_eq_mem, List.mem_singleton, decide_eq_true_eq, ← UInt8.toNat_inj,
      UInt8.toNat_ofNat']
    omega
  have hflags := readFlags_reads fun i => [b].contains (UInt8.ofNat (16 * (b.toNat / 16) + i))
  rw [hplaces] at hflags
  have hbytes : readUsedBytes = (do
      let groups ← readFlags
      let bytes ← groups.mapM fun group => return (← readFlags).map (16 * group + ·)
      return bytes.flatten.map UInt8.ofNat) := rfl
  have hmapM : ([b.toNat / 16].mapM fun group => return (← readFlags).map (16 * group + ·) :
      Reader (List (List Nat))).Reads
      (flagBits fun i => [b].contains (UInt8.ofNat (16 * (b.toNat / 16) + i)))
      [[16 * (b.toNat / 16) + b.toNat % 16]] := by
    have hone := (hflags.map (g := fun l => l.map (16 * (b.toNat / 16) + ·))).map
      (g := fun x => [x])
    simpa [List.mapM_cons] using hone
  have hvalue : [[16 * (b.toNat / 16) + b.toNat % 16]].flatten.map UInt8.ofNat = [b] := by
    simp [Nat.div_add_mod]
  have hread := (readFlags_reads fun group => [b].any fun b => b.toNat / 16 == group).bind
    (f := fun groups => do
      let bytes ← groups.mapM fun group => return (← readFlags).map (16 * group + ·)
      return bytes.flatten.map UInt8.ofNat)
    (by
      rw [hgroups]
      exact hmapM.map (g := fun bytes => bytes.flatten.map UInt8.ofNat))
  rw [hvalue, ← hbytes] at hread
  have hbits : usedBits [b] = flagBits (fun group => [b].any fun b => b.toNat / 16 == group) ++
      flagBits fun i => [b].contains (UInt8.ofNat (16 * (b.toNat / 16) + i)) := by
    simp only [usedBits]
    rw [hgroups, List.flatMap_singleton]
  rwa [hbits]

/-! ### Choices and codes -/

/-- The only choice is the first of two codes. -/
theorem readChoices_reads : (readChoices 2).Reads (choiceBits 2 [0]) [0] := by
  have hones : (readOnes 2 2 0).Reads [false] 0 := (bit_reads false).last (.pure 0)
  have hplaces : (times (readOnes 2 2 0) 1).Reads [false] [0] :=
    times_reads (fun _ => [false]) [0] (by
      intro place hplace
      rw [List.mem_singleton.mp hplace]
      exact hones)
  have hcount : (highNumber 15 : Reader Nat).Reads (highBits 15 1) 1 := highNumber_reads (by decide)
  have hchoices : (do
      let places ← times (readOnes 2 2 0) 1
      return choicesOfPlaces (List.range 2) (places.take maxChoices) : Reader (List Nat)).Reads
      [false] [0] :=
    hplaces.map (g := fun places => choicesOfPlaces (List.range 2) (places.take maxChoices))
  refine hcount.bind ?_
  rw [if_neg (by decide)]
  exact hchoices

/-- The lengths of the words for the two digits and the end. -/
def singleLengths : List Nat := [1, 2, 2]

/-- The code with these words. -/
def singleCode : PrefixCode := .ofLengths maxWord singleLengths

theorem readLength_same (fuel length : Nat) (h : 1 ≤ length) (h' : length ≤ maxWord) :
    (readLength (fuel + 1) length).Reads [false] length := by
  have hrange : (length < 1 || maxWord < length) = false := by
    simp only [Bool.or_eq_false_iff, decide_eq_false_iff_not]
    omega
  rw [readLength, hrange]
  exact (bit_reads false).last (.pure length)

theorem readLength_up (fuel length : Nat) {next : Nat} {bits : List Bool} (h : 1 ≤ length)
    (h' : length ≤ maxWord) (hnext : (readLength fuel (length + 1)).Reads bits next) :
    (readLength (fuel + 1) length).Reads (true :: false :: bits) next := by
  have hrange : (length < 1 || maxWord < length) = false := by
    simp only [Bool.or_eq_false_iff, decide_eq_false_iff_not]
    omega
  rw [readLength, hrange]
  exact (bit_reads true).bind ((bit_reads false).bind hnext)

/-- The lengths are read as changes of the lengths before them. -/
theorem readLengths_reads (fuel : Nat) :
    (readLengths (fuel + 2) 3 1 []).Reads [false, true, false, false, false] singleLengths := by
  have hfirst := readLength_same (fuel + 1) 1 (by decide) (by decide)
  have hsecond := readLength_up (fuel + 1) 1 (by decide) (by decide)
    (readLength_same fuel 2 (by decide) (by decide))
  have hthird := readLength_same (fuel + 1) 2 (by decide) (by decide)
  exact hfirst.bind (hsecond.bind (hthird.last (.pure singleLengths)))

theorem get_reads {α : Type} {order : BitOrder} {f : BitSource order → BitReader order α}
    {bits : List Bool} {x : α} (h : ∀ s, (f s).Reads bits x) : (get >>= f).Reads bits x :=
  fun s rest hs hbits => h s s rest hs hbits

theorem readCode_reads : (readCode 3).Reads (codeBits singleLengths) singleCode := by
  have hfirst : (highNumber 5 : Reader Nat).Reads (highBits 5 1) 1 := highNumber_reads (by decide)
  refine get_reads fun s => ?_
  -- The bound of a source is always enough for the two changes of a length.
  obtain ⟨fuel, hfuel⟩ : ∃ fuel, s.bound = fuel + 2 := ⟨s.bound - 2, by
    simp only [BitSource.bound]
    omega⟩
  simp only [hfuel]
  exact hfirst.bind ((readLengths_reads fuel).map (g := fun lengths =>
    PrefixCode.ofLengths maxWord lengths))

/-- The two codes are the same. -/
theorem readCodes_reads :
    (times (readCode 3) 2).Reads ([singleLengths, singleLengths].flatMap codeBits)
      [singleCode, singleCode] :=
  times_reads (fun _ => codeBits singleLengths) [singleCode, singleCode] (by
    intro code hcode
    have : code = singleCode := by simpa using hcode
    rw [this]
    exact readCode_reads)

/-! ### Symbols -/

/-- A bit that completes a word. -/
theorem readFrom_hit {order : BitOrder} (symbols : Array Nat) {longer : List (Array Nat)}
    (offset : Nat) {b : Bool} (h : 2 * offset + b.toNat < symbols.size) :
    (PrefixCode.readFrom (symbols :: longer) offset : BitReader order (Option Nat)).Reads [b]
      (some symbols[2 * offset + b.toNat]) := by
  refine (bit_reads b).last ?_
  rw [dif_pos h]
  exact .pure _

/-- A bit after which a word goes on. -/
theorem readFrom_miss {order : BitOrder} {symbols : Array Nat} {longer : List (Array Nat)}
    {offset : Nat} {b : Bool} {bits : List Bool} {x : Option Nat}
    (h : ¬ 2 * offset + b.toNat < symbols.size)
    (hrest : (PrefixCode.readFrom longer (2 * offset + b.toNat - symbols.size) :
      BitReader order (Option Nat)).Reads bits x) :
    (PrefixCode.readFrom (symbols :: longer) offset : BitReader order (Option Nat)).Reads
      (b :: bits) x := by
  refine (bit_reads b).bind ?_
  rw [dif_neg h]
  exact hrest

theorem singleCode_levels :
    singleCode.levels = #[0] :: #[1, 2] :: List.replicate 18 #[] := by decide

theorem readSymbol_reads {code : PrefixCode} {bits : List Bool} {symbol : Nat}
    (h : (code.read? : Reader (Option Nat)).Reads bits (some symbol)) :
    (readSymbol code).Reads bits symbol := by
  rw [readSymbol]
  exact h.last (.pure symbol)

/-- The digit that counts one repetition. -/
theorem readSymbol_digit : (readSymbol singleCode).Reads [false] 0 := by
  refine readSymbol_reads ?_
  rw [PrefixCode.read?, singleCode_levels]
  exact readFrom_hit #[0] 0 (b := false) (by decide)

/-- The end of the column. -/
theorem readSymbol_end : (readSymbol singleCode).Reads [true, true] 2 := by
  refine readSymbol_reads ?_
  rw [PrefixCode.read?, singleCode_levels]
  exact readFrom_miss (by decide)
    (readFrom_hit #[1, 2] 0 (b := true) (by decide))

/-! ### Blocks -/

/-- The column is one repetition of the only byte in use. -/
theorem readColumn_reads {capacity : Nat} (h : 1 ≤ capacity) (b : UInt8)
    (codes : List PrefixCode) :
    (readColumn capacity 2 (singleCode :: singleCode :: codes) ⟨.empty, [b], 0, 1⟩).Reads
      [false, true, true] [b].toByteArray := by
  -- The digit stands for one repetition, which the end of the column writes out.
  have hcount : Column.count ⟨.empty, [b], 0, 1⟩ 0 = ⟨.empty, [b], 1, 2⟩ := rfl
  have hflush : Column.flush? ⟨.empty, [b], 1, 2⟩ capacity =
      some ⟨[b].toByteArray, [b], 0, 1⟩ := by
    rw [Column.flush?, if_neg Nat.one_ne_zero, if_neg]
    · rfl
    · exact not_lt.mpr h
  refine readSymbol_digit.bind ?_
  have hweight : ¬ maxWeight ≤ 1 := by decide
  rw [if_pos (by decide), if_neg hweight, hcount]
  refine readSymbol_end.last ?_
  rw [if_neg (by decide), hflush]
  exact .pure _

/-- What the block of a single byte holds. -/
def singleContent (b : UInt8) : Block where
  crc := highCrc32 [b].toByteArray
  randomised := false
  origin := 0
  column := [b].toByteArray

/-- The bits of the block behind its signature. -/
def singleBody (b : UInt8) : List Bool :=
  highBits 32 (highCrc32 [b].toByteArray).toNat ++ ([false] ++ (highBits 24 0 ++ (usedBits [b] ++
    (highBits 3 2 ++ (choiceBits 2 [0] ++ ([singleLengths, singleLengths].flatMap codeBits ++
      [false, true, true]))))))

theorem singleBlock_eq (b : UInt8) :
    singleBlock b = blockSignature.flatMap (highBits 8) ++ singleBody b := by
  have hsymbols : symbolBits [[1, 2, 2], [1, 2, 2]] [0] [0, 2] = [false, true, true] := by decide
  simp only [singleBlock, blockBits, hsymbols, singleBody, singleLengths, List.append_assoc,
    List.length_cons, List.length_nil]

theorem codesOfSymbols_eq : codesOfSymbols [singleCode, singleCode] [0] =
    singleCode :: singleCode :: List.replicate 48 singleCode := rfl

/-- The block of a single byte is read from its bits. -/
theorem readBlock_reads {level : Nat} (h : 1 ≤ level) (b : UInt8) :
    (readBlock level).Reads (singleBody b) (singleContent b) := by
  have hcrc : (highNumber 32 : Reader Nat).Reads (highBits 32 (highCrc32 [b].toByteArray).toNat)
      (highCrc32 [b].toByteArray).toNat := highNumber_reads (UInt32.toNat_lt _)
  have horigin : (highNumber 24 : Reader Nat).Reads (highBits 24 0) 0 :=
    highNumber_reads (by decide)
  have hcodes : (highNumber 3 : Reader Nat).Reads (highBits 3 2) 2 := highNumber_reads (by decide)
  -- The parts are read in the order of the format, and each check between them is passed.
  refine hcrc.bind ((bit_reads false).bind (horigin.bind ?_))
  rw [if_neg (Nat.not_lt_zero _)]
  refine (readUsedBytes_reads b).bind ?_
  rw [if_neg (by simp)]
  refine hcodes.bind ?_
  rw [if_neg (by decide)]
  refine readChoices_reads.bind (readCodes_reads.bind ?_)
  rw [codesOfSymbols_eq]
  -- The column has one byte, and every level has room for it.
  have hcapacity : 1 ≤ bytesPerLevel * level := Nat.mul_pos (by decide) h
  have hblock : ¬ [b].toByteArray.size ≤ 0 := by simp
  refine (readColumn_reads hcapacity b _).last ?_
  rw [if_neg hblock]
  simp only [UInt32.ofNat_toNat]
  exact .pure (singleContent b)

end Folio.Bzip2
