/-!
# Forgiving UTF-8

Reading a string of bytes as UTF-8 when nothing promises that it is. Every longest piece that could
begin a character, and every byte that could not, becomes one replacement character.

## Main definitions

* `Utf8.scan` — what stands at the front of a string of bytes
* `Utf8.decodeFrom` — the characters, one after another
* `Utf8.decodeLossy` — the text, with replacement characters for what is no UTF-8
-/

namespace Folio.Utf8

/-- The character that stands for bytes that are no UTF-8. -/
def replacement : Char := '\ufffd'

/-- The six low bits of a continuation byte. -/
def payload (b : UInt8) : Nat := b.toNat % 64

/-- Whether a byte is a continuation byte. -/
def isContinuation (b : UInt8) : Bool := 0x80 ≤ b && b ≤ 0xBF

/-- Whether a byte can follow the given first byte of a character of three bytes: overlong forms
and surrogates are excluded. -/
def followsThree (first second : UInt8) : Bool :=
  if first = 0xE0 then 0xA0 ≤ second && second ≤ 0xBF
  else if first = 0xED then 0x80 ≤ second && second ≤ 0x9F
  else isContinuation second

/-- Whether a byte can follow the given first byte of a character of four bytes: overlong forms
and numbers beyond the last code point are excluded. -/
def followsFour (first second : UInt8) : Bool :=
  if first = 0xF0 then 0x90 ≤ second && second ≤ 0xBF
  else if first = 0xF4 then 0x80 ≤ second && second ≤ 0x8F
  else isContinuation second

/-- What stands at the front of a nonempty string of bytes: a character and the number of bytes
after the first one that belong to it. -/
def scan (first : UInt8) (rest : List UInt8) : Char × Nat :=
  if first < 0x80 then (Char.ofNat first.toNat, 0)
  else if 0xC2 ≤ first && first ≤ 0xDF then
    match rest with
    | b₁ :: _ =>
      if isContinuation b₁ then (Char.ofNat (first.toNat % 32 * 64 + payload b₁), 1)
      else (replacement, 0)
    | [] => (replacement, 0)
  else if 0xE0 ≤ first && first ≤ 0xEF then
    match rest with
    | b₁ :: more =>
      if followsThree first b₁ then
        match more with
        | b₂ :: _ =>
          if isContinuation b₂ then
            (Char.ofNat ((first.toNat % 16 * 64 + payload b₁) * 64 + payload b₂), 2)
          else (replacement, 1)
        | [] => (replacement, 1)
      else (replacement, 0)
    | [] => (replacement, 0)
  else if 0xF0 ≤ first && first ≤ 0xF4 then
    match rest with
    | b₁ :: more =>
      if followsFour first b₁ then
        match more with
        | b₂ :: more =>
          if isContinuation b₂ then
            match more with
            | b₃ :: _ =>
              if isContinuation b₃ then
                (Char.ofNat (((first.toNat % 8 * 64 + payload b₁) * 64 + payload b₂) * 64
                  + payload b₃), 3)
              else (replacement, 2)
            | [] => (replacement, 2)
          else (replacement, 1)
        | [] => (replacement, 1)
      else (replacement, 0)
    | [] => (replacement, 0)
  else (replacement, 0)

/-- The characters of a string of bytes behind those in `read`, which holds the last one first. The
first `used` bytes belong to a character that has been read. -/
def decodeFrom : (used : Nat) → List UInt8 → (read : List Char) → List Char
  | _, [], read => read.reverse
  | used + 1, _ :: rest, read => decodeFrom used rest read
  | 0, b :: rest, read => decodeFrom (scan b rest).2 rest ((scan b rest).1 :: read)

/-- The text of a string of bytes, with replacement characters for what is no UTF-8. -/
def decodeLossy (bytes : List UInt8) : String := String.ofList (decodeFrom 0 bytes [])

end Folio.Utf8
