import Mathlib.Data.List.Infix
import Folio.Entry.Name
import Folio.Text.CodePage437
import Folio.Text.Utf8

/-!
# Texts are read as they are written

The name of an entry is written as UTF-8, and read as UTF-8 or by a code page as its flags tell. The
code page agrees with UTF-8 on ASCII, and a reader that forgives what is no UTF-8 has nothing to
forgive in what is.

## Main results

* `Utf8.decodeLossy_toUTF8` — UTF-8 is read back
* `CodePage437.decode_toUTF8` — ASCII is read back by the code page
* `EntryName.isAscii_iff_bytes` — a name is ASCII if its bytes are
* `EntryName.normalize_eq_ok_iff` — the names that entries can have
-/

namespace Folio

/-- The bytes of a text are those of its characters. -/
theorem toUTF8_bytes (s : String) :
    s.toUTF8.data.toList = s.toList.flatMap String.utf8EncodeChar := by
  have h : s.toUTF8 = (s.toList.flatMap String.utf8EncodeChar).toByteArray :=
    String.utf8Encode_toList.symm
  rw [h]
  simp

/-- A character takes at most four bytes. -/
theorem utf8ByteSize_le (s : String) : s.utf8ByteSize ≤ 4 * s.toList.length := by
  have hsize : s.utf8ByteSize = (s.toList.flatMap String.utf8EncodeChar).length := by
    rw [← toUTF8_bytes]
    rfl
  rw [hsize]
  induction s.toList with
  | nil => exact Nat.le_refl _
  | cons c rest ih =>
    have hc := c.utf8Size_le_four
    rw [List.flatMap_cons, List.length_append, String.length_utf8EncodeChar, List.length_cons]
    omega

namespace Utf8

/-- The continuation byte for six bits. -/
theorem isContinuation_ofNat (n : Nat) : isContinuation (UInt8.ofNat (n % 64 + 0x80)) = true := by
  have hn : (UInt8.ofNat (n % 64 + 0x80)).toNat = n % 64 + 0x80 := by
    rw [UInt8.toNat_ofNat']
    omega
  simp only [isContinuation, Bool.and_eq_true, decide_eq_true_eq, UInt8.le_iff_toNat_le, hn]
  simp
  omega

theorem payload_ofNat (n : Nat) : payload (UInt8.ofNat (n % 64 + 0x80)) = n % 64 := by
  rw [payload, UInt8.toNat_ofNat']
  omega

variable {n : Nat} {rest : List UInt8}

theorem scan_one (h : n ≤ 0x7f) : scan (UInt8.ofNat n) rest = (Char.ofNat n, 0) := by
  have hn : (UInt8.ofNat n).toNat = n := by
    rw [UInt8.toNat_ofNat']
    omega
  have hfirst : UInt8.ofNat n < 0x80 := by
    rw [UInt8.lt_iff_toNat_lt, hn]
    simp
    omega
  rw [scan.eq_def, if_pos hfirst, hn]

theorem scan_two (low : 0x7f < n) (high : n ≤ 0x7ff) :
    scan (UInt8.ofNat (n / 64 % 32 + 0xc0)) (UInt8.ofNat (n % 64 + 0x80) :: rest) =
      (Char.ofNat n, 1) := by
  generalize hfirst : UInt8.ofNat (n / 64 % 32 + 0xc0) = first
  have hn : first.toNat = n / 64 + 0xc0 := by
    rw [← hfirst, UInt8.toNat_ofNat']
    omega
  have hvalue : first.toNat % 32 * 64 + n % 64 = n := by omega
  rw [scan.eq_def, if_neg, if_pos]
  · simp only [isContinuation_ofNat, if_true, payload_ofNat, hvalue]
  · simp only [UInt8.le_iff_toNat_le, hn, Bool.and_eq_true, decide_eq_true_eq]
    simp
    omega
  · simp only [UInt8.lt_iff_toNat_lt, hn]
    simp

/-- The second byte of a character of three bytes is one that can follow the first. -/
theorem followsThree_ofNat {first : UInt8} (hfirst : first.toNat = n / 4096 + 0xe0)
    (low : 0x7ff < n) (valid : n.isValidChar) (high : n ≤ 0xffff) :
    followsThree first (UInt8.ofNat (n / 64 % 64 + 0x80)) = true := by
  have hn : (UInt8.ofNat (n / 64 % 64 + 0x80)).toNat = n / 64 % 64 + 0x80 := by
    rw [UInt8.toNat_ofNat']
    omega
  rw [followsThree]
  split
  · next h =>
    -- After 0xE0 the second byte is at least 0xA0, since two bytes are not enough.
    have : n / 4096 = 0 := by simpa [← UInt8.toNat_inj, hfirst] using h
    simp only [Bool.and_eq_true, decide_eq_true_eq, UInt8.le_iff_toNat_le, hn]
    simp
    omega
  · split
    · next h =>
      -- After 0xED it is below 0xA0, since no surrogate is a character.
      have : n / 4096 + 0xe0 = 0xed := by simpa [← UInt8.toNat_inj, hfirst] using h
      simp only [Bool.and_eq_true, decide_eq_true_eq, UInt8.le_iff_toNat_le, hn]
      simp
      rcases valid with valid | valid
      · omega
      · omega
    · exact isContinuation_ofNat (n / 64)

theorem scan_three (low : 0x7ff < n) (high : n ≤ 0xffff) (valid : n.isValidChar) :
    scan (UInt8.ofNat (n / 4096 % 16 + 0xe0)) (UInt8.ofNat (n / 64 % 64 + 0x80) ::
      UInt8.ofNat (n % 64 + 0x80) :: rest) = (Char.ofNat n, 2) := by
  generalize hfirst : UInt8.ofNat (n / 4096 % 16 + 0xe0) = first
  have hn : first.toNat = n / 4096 + 0xe0 := by
    rw [← hfirst, UInt8.toNat_ofNat']
    omega
  have hvalue : (first.toNat % 16 * 64 + n / 64 % 64) * 64 + n % 64 = n := by omega
  rw [scan.eq_def, if_neg, if_neg, if_pos]
  · simp only [followsThree_ofNat hn low valid high, isContinuation_ofNat, if_true, payload_ofNat,
      hvalue]
  · simp only [UInt8.le_iff_toNat_le, hn, Bool.and_eq_true, decide_eq_true_eq]
    simp
    omega
  · simp only [UInt8.le_iff_toNat_le, hn, Bool.and_eq_true, decide_eq_true_eq]
    simp
  · simp only [UInt8.lt_iff_toNat_lt, hn]
    simp

/-- The second byte of a character of four bytes is one that can follow the first. -/
theorem followsFour_ofNat {first : UInt8} (hfirst : first.toNat = n / 262144 + 0xf0)
    (low : 0xffff < n) (high : n < 0x110000) :
    followsFour first (UInt8.ofNat (n / 4096 % 64 + 0x80)) = true := by
  have hn : (UInt8.ofNat (n / 4096 % 64 + 0x80)).toNat = n / 4096 % 64 + 0x80 := by
    rw [UInt8.toNat_ofNat']
    omega
  rw [followsFour]
  split
  · next h =>
    -- After 0xF0 the second byte is at least 0x90, as before.
    have : n / 262144 = 0 := by simpa [← UInt8.toNat_inj, hfirst] using h
    simp only [Bool.and_eq_true, decide_eq_true_eq, UInt8.le_iff_toNat_le, hn]
    simp
    omega
  · split
    · next h =>
      -- After 0xF4 it is below 0x90, since there are no more characters.
      have : n / 262144 + 0xf0 = 0xf4 := by simpa [← UInt8.toNat_inj, hfirst] using h
      simp only [Bool.and_eq_true, decide_eq_true_eq, UInt8.le_iff_toNat_le, hn]
      simp
      omega
    · exact isContinuation_ofNat (n / 4096)

theorem scan_four (low : 0xffff < n) (high : n < 0x110000) :
    scan (UInt8.ofNat (n / 262144 % 8 + 0xf0)) (UInt8.ofNat (n / 4096 % 64 + 0x80) ::
      UInt8.ofNat (n / 64 % 64 + 0x80) :: UInt8.ofNat (n % 64 + 0x80) :: rest) =
      (Char.ofNat n, 3) := by
  generalize hfirst : UInt8.ofNat (n / 262144 % 8 + 0xf0) = first
  have hn : first.toNat = n / 262144 + 0xf0 := by
    rw [← hfirst, UInt8.toNat_ofNat']
    omega
  have hvalue : ((first.toNat % 8 * 64 + n / 4096 % 64) * 64 + n / 64 % 64) * 64 + n % 64 = n := by
    omega
  rw [scan.eq_def, if_neg, if_neg, if_neg, if_pos]
  · simp only [followsFour_ofNat hn low high, isContinuation_ofNat, if_true, payload_ofNat, hvalue]
  · simp only [UInt8.le_iff_toNat_le, hn, Bool.and_eq_true, decide_eq_true_eq]
    simp
    omega
  · simp only [UInt8.le_iff_toNat_le, hn, Bool.and_eq_true, decide_eq_true_eq]
    simp
  · simp only [UInt8.le_iff_toNat_le, hn, Bool.and_eq_true, decide_eq_true_eq]
    simp
  · simp only [UInt8.lt_iff_toNat_lt, hn]
    simp

/-- A character is read from its bytes, whatever follows them. -/
theorem scan_encode (c : Char) (rest : List UInt8) :
    ∃ first tail, String.utf8EncodeChar c = first :: tail ∧
      scan first (tail ++ rest) = (c, tail.length) := by
  have hc : Char.ofNat c.val.toNat = c := Char.ofNat_toNat c
  have valid : c.val.toNat.isValidChar := c.valid
  have high : c.val.toNat < 0x110000 := by
    rcases valid with h | h
    · omega
    · exact h.2
  rw [String.utf8EncodeChar]
  -- A character takes one byte up to four, as its number grows.
  by_cases h1 : c.val.toNat ≤ 0x7f
  · exact ⟨_, [], if_pos h1, (scan_one h1).trans (by rw [hc]; rfl)⟩
  simp only [if_neg h1]
  by_cases h2 : c.val.toNat ≤ 0x7ff
  · exact ⟨_, [_], if_pos h2, (scan_two (not_le.mp h1) h2).trans (by rw [hc]; rfl)⟩
  rw [if_neg h2]
  by_cases h3 : c.val.toNat ≤ 0xffff
  · exact ⟨_, [_, _], if_pos h3, (scan_three (not_le.mp h2) h3 valid).trans (by rw [hc]; rfl)⟩
  · exact ⟨_, [_, _, _], if_neg h3, (scan_four (not_le.mp h3) high).trans (by rw [hc]; rfl)⟩

theorem decodeFrom_skip (used rest : List UInt8) (read : List Char) :
    decodeFrom used.length (used ++ rest) read = decodeFrom 0 rest read := by
  induction used with
  | nil => rfl
  | cons b used ih =>
    rw [List.length_cons, List.cons_append, decodeFrom]
    exact ih

theorem decodeFrom_encode (l read : List Char) :
    decodeFrom 0 (l.flatMap String.utf8EncodeChar) read = read.reverse ++ l := by
  induction l generalizing read with
  | nil => simp [decodeFrom]
  | cons c l ih =>
    obtain ⟨first, tail, hencode, hscan⟩ := scan_encode c (l.flatMap String.utf8EncodeChar)
    -- The character is put out at its first byte, and its other bytes are skipped.
    rw [List.flatMap_cons, hencode, List.cons_append, decodeFrom, hscan, decodeFrom_skip, ih]
    simp

/-- UTF-8 is read back. -/
theorem decodeLossy_toUTF8 (s : String) : decodeLossy s.toUTF8.data.toList = s := by
  rw [decodeLossy, toUTF8_bytes, decodeFrom_encode]
  simp

end Utf8

/-! ### ASCII -/

/-- An ASCII character is encoded as itself. -/
theorem utf8EncodeChar_ascii {c : Char} (h : c.toNat < 128) :
    String.utf8EncodeChar c = [UInt8.ofNat c.toNat] := by
  have hle : c.val.toNat ≤ 0x7f := Nat.le_of_lt_succ h
  rw [String.utf8EncodeChar]
  exact if_pos hle

/-- The bytes of every other character are not all ASCII. -/
theorem exists_high_byte {c : Char} (h : ¬ c.toNat < 128) :
    ∃ b ∈ String.utf8EncodeChar c, 128 ≤ b.toNat := by
  have hle : ¬ c.val.toNat ≤ 0x7f := fun hle => h (Nat.lt_succ_of_le hle)
  rw [String.utf8EncodeChar]
  simp only [if_neg hle]
  split
  · refine ⟨_, List.mem_cons_self, ?_⟩
    rw [UInt8.toNat_ofNat']
    omega
  · split
    · refine ⟨_, List.mem_cons_self, ?_⟩
      rw [UInt8.toNat_ofNat']
      omega
    · refine ⟨_, List.mem_cons_self, ?_⟩
      rw [UInt8.toNat_ofNat']
      omega

namespace EntryName

/-- A name is ASCII if all its bytes are. -/
theorem isAscii_iff_bytes (name : String) :
    isAscii name = true ↔ ∀ b ∈ name.toUTF8.data.toList, b.toNat < 128 := by
  rw [isAscii, List.all_eq_true, toUTF8_bytes]
  simp only [decide_eq_true_eq, List.mem_flatMap]
  constructor
  · rintro h b ⟨c, hc, hb⟩
    rw [utf8EncodeChar_ascii (h c hc), List.mem_singleton] at hb
    have := h c hc
    rw [hb, UInt8.toNat_ofNat']
    omega
  · intro h c hc
    by_contra hhigh
    obtain ⟨b, hb, hle⟩ := exists_high_byte hhigh
    exact absurd (h b ⟨c, hc, hb⟩) (not_lt.mpr hle)

/-- The mark of UTF-8 is set exactly for the names that are not ASCII. -/
theorem testBit_flags (name : String) : (flags name).toNat.testBit 11 = !isAscii name := by
  rw [flags]
  cases isAscii name with
  | true => decide
  | false => decide

/-- A name without a slash is its only component. -/
theorem components_eq_singleton {name : List Char} (h : '/' ∉ name) : components name = [name] := by
  induction name with
  | nil => rfl
  | cons c rest ih =>
    obtain ⟨hc, hrest⟩ := not_or.mp (mt List.mem_cons.mpr h)
    rw [components, List.foldr_cons, ← components, ih hrest, if_neg (Ne.symm hc)]

theorem normalize_eq_ok_iff {name normal : String} :
    normalize name = .ok normal ↔
      fault? (withSlashes name) = none ∧ normal = String.ofList (withSlashes name) := by
  rw [normalize]
  cases fault? (withSlashes name) with
  | some fault => simp
  | none => simp [eq_comm]

/-- The name of an entry fits its length field. -/
theorem size_le_of_normalize {name normal : String} (h : normalize name = .ok normal) :
    normal.toUTF8.data.toList.length ≤ maxSize := by
  obtain ⟨hfault, rfl⟩ := normalize_eq_ok_iff.mp h
  rw [fault?] at hfault
  split_ifs at hfault with _ _ _ hsize
  exact not_lt.mp hsize

end EntryName

namespace CodePage437

theorem char_ofNat {c : Char} (h : c.toNat < 128) : char (UInt8.ofNat c.toNat) = c := by
  have hn : (UInt8.ofNat c.toNat).toNat = c.toNat := by
    rw [UInt8.toNat_ofNat']
    omega
  have hlt : UInt8.ofNat c.toNat < 128 := by
    rw [UInt8.lt_iff_toNat_lt, hn]
    exact h
  rw [char, if_pos hlt, hn, Char.ofNat_toNat]

theorem map_char_encode {l : List Char} (h : ∀ c ∈ l, c.toNat < 128) :
    (l.flatMap String.utf8EncodeChar).map char = l := by
  induction l with
  | nil => rfl
  | cons c l ih =>
    have hc := h c List.mem_cons_self
    rw [List.flatMap_cons, utf8EncodeChar_ascii hc, List.map_append, List.map_singleton,
      char_ofNat hc, ih fun c hc => h c (List.mem_cons_of_mem _ hc), List.singleton_append]

/-- ASCII is read back by the code page. -/
theorem decode_toUTF8 {s : String} (h : EntryName.isAscii s = true) :
    decode s.toUTF8.data.toList = s := by
  have hascii : ∀ c ∈ s.toList, c.toNat < 128 := by
    simpa [EntryName.isAscii] using h
  rw [decode, toUTF8_bytes, map_char_encode hascii, String.ofList_toList]

end CodePage437

end Folio
