/-!
# Code page 437

The encoding of entry names in archives that do not mark them as UTF-8. Every byte is one
character, and the lower half is ASCII.

## Main definitions

* `CodePage437.highHalf` — the characters of the bytes from 128 on
* `CodePage437.char` — the character of a byte
* `CodePage437.decode` — the text of a string of bytes
-/

namespace Folio.CodePage437

/-- The characters of the bytes from 128 on. -/
def highHalf : Array Char := #[
  'Ç', 'ü', 'é', 'â', 'ä', 'à', 'å', 'ç', 'ê', 'ë', 'è', 'ï', 'î', 'ì', 'Ä', 'Å',
  'É', 'æ', 'Æ', 'ô', 'ö', 'ò', 'û', 'ù', 'ÿ', 'Ö', 'Ü', '¢', '£', '¥', '₧', 'ƒ',
  'á', 'í', 'ó', 'ú', 'ñ', 'Ñ', 'ª', 'º', '¿', '⌐', '¬', '½', '¼', '¡', '«', '»',
  '░', '▒', '▓', '│', '┤', '╡', '╢', '╖', '╕', '╣', '║', '╗', '╝', '╜', '╛', '┐',
  '└', '┴', '┬', '├', '─', '┼', '╞', '╟', '╚', '╔', '╩', '╦', '╠', '═', '╬', '╧',
  '╨', '╤', '╥', '╙', '╘', '╒', '╓', '╫', '╪', '┘', '┌', '█', '▄', '▌', '▐', '▀',
  'α', 'ß', 'Γ', 'π', 'Σ', 'σ', 'µ', 'τ', 'Φ', 'Θ', 'Ω', 'δ', '∞', 'φ', 'ε', '∩',
  '≡', '±', '≥', '≤', '⌠', '⌡', '÷', '≈', '°', '∙', '·', '√', 'ⁿ', '²', '■', '\u00a0']

/-- The character of a byte. -/
def char (b : UInt8) : Char :=
  if b < 128 then Char.ofNat b.toNat else highHalf.getD (b.toNat - 128) ' '

/-- The text of a string of bytes, one character to the byte. -/
def decode (bytes : List UInt8) : String := String.ofList (bytes.map char)

end Folio.CodePage437
