import Mathlib.Data.List.Nodup
import Folio.Proofs.Archive.Features
import Folio.Proofs.Text.Encodings

/-!
# Legacy names do not collide

Names that are not marked as UTF-8 are read by the code page. It has another character for every
byte, so different bytes are different names, and no entry of an archive without such marks is
hidden behind another one whose name is spelled otherwise.

## Main definitions

* `Archive.RawNames` — the names of the entries, as the central headers spell them

## Main results

* `CodePage437.decode_injective` — different bytes are different texts
* `Archive.read_decode` — the entry that is read for the text of a name
* `Archive.legacy_names_apart` — the code page, and the names in archives that use it
-/

namespace Folio

/-! ### The code page -/

namespace CodePage437

variable {b b' : UInt8}

/-- No character comes twice in the upper half. -/
theorem nodup_highHalf : highHalf.toList.Nodup := by decide +kernel

/-- No character of the upper half is ASCII. -/
theorem le_toNat_of_mem_highHalf {c : Char} (h : c ∈ highHalf.toList) : 128 ≤ c.toNat := by
  have hall : (highHalf.toList.all fun c => 128 ≤ c.toNat) = true := by decide +kernel
  exact of_decide_eq_true (List.all_eq_true.mp hall c h)

theorem toNat_char_of_lt (h : b.toNat < 128) : (char b).toNat = b.toNat := by
  have hvalid : b.toNat.isValidChar := .inl (h.trans (by decide))
  have hb : b < 128 := UInt8.lt_iff_toNat_lt.mpr h
  rw [char, if_pos hb, Char.ofNat, dif_pos hvalid]
  rfl

theorem getElem?_highHalf_of_le (h : 128 ≤ b.toNat) :
    highHalf.toList[b.toNat - 128]? = some (char b) := by
  have hb : ¬ b < 128 := fun hb => (UInt8.lt_iff_toNat_lt.mp hb).not_ge h
  have hsize : b.toNat - 128 < highHalf.size := by
    have hlt := b.toNat_lt
    have hhalf : highHalf.size = 128 := rfl
    omega
  rw [char, if_neg hb, Array.getD_eq_getD_getElem?, Array.getElem?_eq_getElem hsize,
    Array.getElem?_toList, Array.getElem?_eq_getElem hsize]
  rfl

theorem le_toNat_char (h : 128 ≤ b.toNat) : 128 ≤ (char b).toNat :=
  le_toNat_of_mem_highHalf (List.mem_of_getElem? (getElem?_highHalf_of_le h))

/-- The character of a byte tells whether the byte is ASCII. -/
theorem toNat_char_lt_iff : (char b).toNat < 128 ↔ b.toNat < 128 := by
  constructor
  · intro h
    by_contra hb
    exact absurd (le_toNat_char (not_lt.mp hb)) (not_le.mpr h)
  · intro hb
    rwa [toNat_char_of_lt hb]

/-- Different bytes are different characters. -/
theorem char_injective : Function.Injective char := by
  intro b b' h
  have hhalf : b.toNat < 128 ↔ b'.toNat < 128 := by
    rw [← toNat_char_lt_iff, h, toNat_char_lt_iff]
  apply UInt8.toNat_inj.mp
  by_cases hb : b.toNat < 128
  · rw [← toNat_char_of_lt hb, h, toNat_char_of_lt (hhalf.mp hb)]
  -- In the upper half a character has one place only.
  · have hplace := getElem?_highHalf_of_le (not_lt.mp hb)
    have hplace' := getElem?_highHalf_of_le (not_lt.mp (mt hhalf.mpr hb))
    obtain ⟨hlt, -⟩ := List.getElem?_eq_some_iff.mp hplace
    rw [h, ← hplace'] at hplace
    have hsame := (List.getElem?_inj hlt nodup_highHalf).mp hplace
    omega

/-- Different bytes are different texts. -/
theorem decode_injective : Function.Injective decode := by
  intro l l' h
  apply List.map_injective_iff.mpr char_injective
  exact String.ofList_injective h

theorem decode_append (l l' : List UInt8) : decode (l ++ l') = decode l ++ decode l' := by
  rw [decode, List.map_append, String.ofList_append]
  rfl

theorem length_decode (l : List UInt8) : (decode l).length = l.length := by
  rw [decode, String.length_ofList, List.length_map]

/-- Bytes that are ASCII are the numbers of their characters. -/
theorem toNat_decode {l : List UInt8} (ascii : ∀ b ∈ l, b.toNat < 128) :
    (decode l).toList.map Char.toNat = l.map UInt8.toNat := by
  rw [decode, String.toList_ofList, List.map_map]
  apply List.map_congr_left
  intro b hb
  exact toNat_char_of_lt (ascii b hb)

end CodePage437

/-! ### Names in archives -/

namespace Archive

open CodePage437 (decode decode_injective)

variable {headers : List CentralHeader} {h : CentralHeader}

theorem described_name_of_legacy (legacy : h.flags.toNat.testBit 11 = false) :
    (Entry.described h).name = decode h.name := by
  rw [Entry.described, legacy]
  rfl

theorem map_name_described (legacy : ∀ h ∈ headers, h.flags.toNat.testBit 11 = false) :
    (headers.map Entry.described).map Entry.name = (headers.map (·.name)).map decode := by
  rw [List.map_map, List.map_map]
  apply List.map_congr_left
  intro h hh
  exact described_name_of_legacy (legacy h hh)

/-- The first entry with the text of a name is the first one with that name. -/
theorem find?_described (legacy : ∀ h ∈ headers, h.flags.toNat.testBit 11 = false)
    (name : List UInt8) : (headers.map Entry.described).find? (fun e => e.name == decode name) =
      (headers.map Entry.described)[(headers.map (·.name)).idxOf name]? := by
  induction headers with
  | nil => rfl
  | cons h rest ih =>
    obtain ⟨hfirst, hrest⟩ := List.forall_mem_cons.mp legacy
    rw [List.map_cons, List.map_cons, List.find?_cons, List.idxOf_cons,
      described_name_of_legacy hfirst]
    by_cases hname : h.name = name
    · simp only [hname, beq_self_eq_true, cond_true, List.getElem?_cons_zero]
    · have hdecode : decode h.name ≠ decode name := decode_injective.ne hname
      simp only [beq_eq_false_iff_ne.mpr hdecode, beq_eq_false_iff_ne.mpr hname, cond_false,
        List.getElem?_cons_succ, ih hrest]

/-- For the text of a name that occurs, the first entry with that name is read. -/
theorem read_decode [Codec] {bytes : ByteArray} {directoryOffset : Nat} {comment : List UInt8}
    (legacy : ∀ h ∈ headers, h.flags.toNat.testBit 11 = false) {name : List UInt8}
    (occurs : name ∈ headers.map (·.name)) :
    let a : Archive := ⟨bytes, (headers.map Entry.described).toArray, directoryOffset, comment⟩
    a.read (decode name) = a.readAt ((headers.map (·.name)).idxOf name) := by
  have hlt := List.idxOf_lt_length_of_mem occurs
  rw [List.length_map, ← List.length_map (f := Entry.described)] at hlt
  have hfind := find?_described legacy name
  rw [List.getElem?_eq_getElem hlt] at hfind
  simp only [Archive.read, Archive.find?, Archive.readAt, List.find?_toArray, hfind,
    List.getElem?_toArray, List.getElem?_eq_getElem hlt]

/-- The names of the entries of an archive, as its central headers spell them. -/
def RawNames (bytes : ByteArray) (raw : List (List UInt8)) : Prop :=
  ∃ r place headers, Grammar bytes r place headers ∧ raw = headers.map (·.name)

theorem RawNames.unique {bytes : ByteArray} {raw raw' : List (List UInt8)}
    (names : RawNames bytes raw) (names' : RawNames bytes raw') : raw' = raw := by
  obtain ⟨r, place, headers, g, rfl⟩ := names
  obtain ⟨r', place', headers', g', rfl⟩ := names'
  obtain ⟨-, -, rfl⟩ := g.unique g'
  rfl

/-- The code page reads different bytes as different texts, byte by byte, one character to the byte,
and ASCII as ASCII. So in an archive without a name that is marked as UTF-8, two entries have the
same name exactly if the central directory spells their names alike, and a reader who asks for the
text of a name gets the first entry with that name. -/
theorem legacy_names_apart [Codec] :
    (∀ l l', decode l = decode l' ↔ l = l') ∧
    (∀ l l', decode (l ++ l') = decode l ++ decode l') ∧
    (∀ l, (decode l).length = l.length) ∧
    (∀ l : List UInt8, (∀ b ∈ l, b.toNat < 0x80) →
      (decode l).toList.map Char.toNat = l.map UInt8.toNat) ∧
    ∀ bytes a, ofBytes bytes = .ok a → (∀ e ∈ a.entries, e.flags.toNat.testBit 11 = false) →
      ∃ raw, RawNames bytes raw ∧ (∀ raw', RawNames bytes raw' → raw' = raw) ∧
        raw.length = a.size ∧
        (∀ i j : Nat, a.names[i]? = a.names[j]? ↔ raw[i]? = raw[j]?) ∧
        ∀ name ∈ raw, a.read (decode name) = a.readAt (raw.idxOf name) := by
  refine ⟨fun l l' => decode_injective.eq_iff, CodePage437.decode_append,
    CodePage437.length_decode, fun l => CodePage437.toNat_decode, ?_⟩
  intro bytes a accepted unmarked
  obtain ⟨r, place, headers, g, rfl⟩ := ofBytes_eq_ok_iff.mp accepted
  have legacy : ∀ h ∈ headers, h.flags.toNat.testBit 11 = false := by
    intro h hh
    apply unmarked (.described h)
    exact List.mem_toArray.mpr (List.mem_map_of_mem hh)
  have raw : RawNames bytes (headers.map (·.name)) := ⟨r, place, headers, g, rfl⟩
  refine ⟨_, raw, fun raw' => raw.unique, ?_, ?_, fun name => read_decode legacy⟩
  · rw [Archive.size, List.size_toArray, List.length_map, List.length_map]
  · intro i j
    rw [Archive.names, map_name_described legacy]
    simp only [List.getElem?_map]
    exact (Option.map_injective decode_injective).eq_iff

/-- The central header of an entry whose name is one byte. -/
def namedCentral (name : UInt8) : CentralHeader := { plainCentral with name := [name] }

/-- The central headers of three entries, the first and the last of which have the same name. -/
def accentedHeaders : List CentralHeader := [0x82, 0xE1, 0x82].map namedCentral

/-- An archive with these entries, all of which have the same data. -/
def accentedBytes : ByteArray :=
  (plainLocal.encode ++ plainData.data.toList ++ accentedHeaders.flatMap CentralHeader.encode
    ++ (EndRecord.singleDisk 3 141 36).encode).toByteArray

theorem grammar_accentedBytes :
    Grammar accentedBytes (.singleDisk 3 141 36) 177 accentedHeaders where
  last := EndRecord.find_eq_ok_iff.mp (by decide +kernel)
  oneDisk := ⟨rfl, rfl⟩
  counts := rfl
  count_ne := by decide
  offset_ne := by decide
  inside := by decide
  length := rfl
  readable := by
    intro h hmem
    obtain ⟨name, -, rfl⟩ := List.mem_map.mp hmem
    have hplain := readable_plainCentral
    exact ⟨⟨by simp [namedCentral, maxLength], hplain.fits.extra, hplain.fits.comment⟩,
      hplain.unmarked⟩
  spells := by decide +kernel

/-- The first two entries are found under different names, and the last one is never found. -/
theorem legacy_names_apart_accented : ∃ a, ofBytes accentedBytes = .ok a ∧
    a.names[2]? = a.names[0]? ∧ a.names[1]? ≠ a.names[0]? ∧
    a.read "é" = a.readAt 0 ∧ a.read "ß" = a.readAt 1 := by
  have accepted := ofBytes_eq_ok_iff.mpr ⟨_, _, _, grammar_accentedBytes, rfl⟩
  obtain ⟨-, -, -, -, hnames⟩ := legacy_names_apart
  obtain ⟨raw, -, hunique, -, hsame, hread⟩ := hnames _ _ accepted (by decide +kernel)
  obtain rfl := hunique _ ⟨_, _, _, grammar_accentedBytes, rfl⟩
  have hacute : decode [0x82] = "é" := by decide +kernel
  have hsharp : decode [0xE1] = "ß" := by decide +kernel
  refine ⟨_, accepted, (hsame 2 0).mpr rfl, mt (hsame 1 0).mp (by decide), ?_, ?_⟩
  · rw [← hacute]
    exact hread [0x82] (by decide)
  · rw [← hsharp]
    exact hread [0xE1] (by decide)

end Archive

end Folio
