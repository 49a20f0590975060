/-!
# Little-endian words

How the 16-bit and 32-bit fields of an archive are laid out: the low byte comes first.

## Main definitions

* `le16`, `le32` — the bytes of a word
* `ofLe16`, `ofLe32` — the word that given bytes spell

## Main results

* `ofLe16_bytes`, `ofLe32_bytes` — a word is read back from its bytes
* `le16_ofLe16`, `le32_ofLe32` — bytes are written back as they were read
* `le16_injective`, `le32_injective` — different words have different bytes
-/

namespace Folio

/-- The two bytes of a 16-bit word. -/
def le16 (w : UInt16) : List UInt8 := [UInt8.ofNat w.toNat, UInt8.ofNat (w.toNat / 0x100)]

/-- The 16-bit word that two bytes spell. -/
def ofLe16 (b₀ b₁ : UInt8) : UInt16 := UInt16.ofNat (b₀.toNat + 0x100 * b₁.toNat)

/-- The four bytes of a 32-bit word. -/
def le32 (w : UInt32) : List UInt8 :=
  [UInt8.ofNat w.toNat, UInt8.ofNat (w.toNat / 0x100), UInt8.ofNat (w.toNat / 0x10000),
    UInt8.ofNat (w.toNat / 0x1000000)]

/-- The 32-bit word that four bytes spell. -/
def ofLe32 (b₀ b₁ b₂ b₃ : UInt8) : UInt32 :=
  UInt32.ofNat (b₀.toNat + 0x100 * b₁.toNat + 0x10000 * b₂.toNat + 0x1000000 * b₃.toNat)

@[simp] theorem length_le16 (w : UInt16) : (le16 w).length = 2 := rfl

@[simp] theorem length_le32 (w : UInt32) : (le32 w).length = 4 := rfl

theorem ofLe16_bytes (w : UInt16) :
    ofLe16 (UInt8.ofNat w.toNat) (UInt8.ofNat (w.toNat / 0x100)) = w := by
  apply UInt16.toNat_inj.mp
  have := w.toNat_lt
  simp only [ofLe16, UInt16.toNat_ofNat', UInt8.toNat_ofNat']
  omega

theorem le16_ofLe16 (b₀ b₁ : UInt8) : le16 (ofLe16 b₀ b₁) = [b₀, b₁] := by
  have := b₀.toNat_lt
  have := b₁.toNat_lt
  simp only [le16, ofLe16, List.cons.injEq, and_true, ← UInt8.toNat_inj, UInt16.toNat_ofNat',
    UInt8.toNat_ofNat']
  omega

theorem ofLe32_bytes (w : UInt32) :
    ofLe32 (UInt8.ofNat w.toNat) (UInt8.ofNat (w.toNat / 0x100)) (UInt8.ofNat (w.toNat / 0x10000))
      (UInt8.ofNat (w.toNat / 0x1000000)) = w := by
  apply UInt32.toNat_inj.mp
  have := w.toNat_lt
  simp only [ofLe32, UInt32.toNat_ofNat', UInt8.toNat_ofNat']
  omega

theorem le32_ofLe32 (b₀ b₁ b₂ b₃ : UInt8) : le32 (ofLe32 b₀ b₁ b₂ b₃) = [b₀, b₁, b₂, b₃] := by
  have := b₀.toNat_lt
  have := b₁.toNat_lt
  have := b₂.toNat_lt
  have := b₃.toNat_lt
  simp only [le32, ofLe32, List.cons.injEq, and_true, ← UInt8.toNat_inj, UInt32.toNat_ofNat',
    UInt8.toNat_ofNat']
  omega

theorem le16_injective {w w' : UInt16} (h : le16 w = le16 w') : w = w' := by
  simp only [le16, List.cons.injEq, and_true] at h
  rw [← ofLe16_bytes w, h.1, h.2, ofLe16_bytes]

theorem le32_injective {w w' : UInt32} (h : le32 w = le32 w') : w = w' := by
  simp only [le32, List.cons.injEq, and_true] at h
  rw [← ofLe32_bytes w, h.1, h.2.1, h.2.2.1, h.2.2.2, ofLe32_bytes]

end Folio
