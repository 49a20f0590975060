import Folio.Text.Unprintable
import Folio.Text.GraphemeExtend

/-!
# Quoted text

How a name is shown in a message: between double quotes, with every character that could not be
told apart on a screen written as an escape.

## Main definitions

* `hexDigits` — the digits of a number to the base sixteen
* `escaped` — the form of one character between quotes
* `quoted` — a text between quotes
-/

namespace Folio.Text

/-- The digits of a number to the base sixteen, in lower case and without leading zeros. -/
def hexDigits (n : Nat) : String := String.ofList (Nat.toDigits 16 n)

/-- A number to the base sixteen, filled up with zeros on the left to the given width. -/
def paddedHex (width n : Nat) : String :=
  let digits := Nat.toDigits 16 n
  String.ofList (List.replicate (width - digits.length) '0' ++ digits)

/-- The form of one character between quotes. -/
def escaped (c : Char) : String :=
  if c = '"' then "\\\""
  else if c = '\\' then "\\\\"
  else if c = '\t' then "\\t"
  else if c = '\n' then "\\n"
  else if c = '\r' then "\\r"
  else if c = '\x00' then "\\0"
  else if isPrintable c && !extendsGrapheme c then c.toString
  else "\\u\x7b" ++ hexDigits c.toNat ++ "\x7d"

/-- The text between double quotes, with escapes for what a reader could not see. -/
def quoted (s : String) : String :=
  "\"" ++ s.foldl (fun shown c => shown ++ escaped c) "" ++ "\""

end Folio.Text
