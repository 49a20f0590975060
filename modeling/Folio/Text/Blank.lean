/-!
# Blank characters

The code points with the property `White_Space`: the spaces of all widths, and the characters that
end a line or a page.

## Main definitions

* `blankRanges` — the inclusive ranges of these code points, ascending
* `isBlank` — whether a character lies in one of them
* `trimBlanks` — a text without the blanks at its ends
-/

namespace Folio.Text

/-- The inclusive ranges of code points with the property `White_Space`, ascending. -/
def blankRanges : List (Nat × Nat) := [
  (0x0009, 0x000D), (0x0020, 0x0020), (0x0085, 0x0085), (0x00A0, 0x00A0), (0x1680, 0x1680),
  (0x2000, 0x200A), (0x2028, 0x2029), (0x202F, 0x202F), (0x205F, 0x205F), (0x3000, 0x3000)]

/-- Whether a character is blank. -/
def isBlank (c : Char) : Bool :=
  blankRanges.any fun range => range.1 ≤ c.toNat && c.toNat ≤ range.2

/-- A text without the blanks at its ends. -/
def trimBlanks (s : String) : String :=
  String.ofList ((s.toList.dropWhile isBlank).reverse.dropWhile isBlank).reverse

end Folio.Text
