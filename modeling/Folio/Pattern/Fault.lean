/-!
# What can be wrong with a pattern

A pattern is a regular expression that a user writes. What is wrong with it is told together with
the part of its text to which that applies.

## Main definitions

* `Place`, `Span` — a place in the text of a pattern, and the text between two of them
* `FaultKind` — what is wrong
* `FaultKind.message` — the wording
* `Fault` — what is wrong, and where
* `Fault.report` — the text that shows it
-/

namespace Folio.Pattern

/-- A place in the text of a pattern, between two characters. Lines and columns count from one. -/
structure Place where
  line : Nat
  /-- The number of characters of the line before the place, and one. -/
  column : Nat
deriving DecidableEq, Repr

/-- The place before the first character. -/
def Place.first : Place := ⟨1, 1⟩

/-- The place behind a character. -/
def Place.after (p : Place) (c : Char) : Place :=
  if c = '\n' then ⟨p.line + 1, 1⟩ else ⟨p.line, p.column + 1⟩

/-- Whether a place is not behind another one. -/
def Place.isUpTo (p q : Place) : Bool :=
  p.line < q.line || (p.line == q.line && p.column ≤ q.column)

/-- The text between two places. -/
structure Span where
  start : Place
  stop : Place
deriving DecidableEq, Repr

/-- Whether a span is not behind another one: it starts earlier, or stops no later. -/
def Span.isUpTo (s t : Span) : Bool :=
  if s.start = t.start then s.stop.isUpTo t.stop else s.start.isUpTo t.start

/-- The deepest that the parts of a pattern may lie within each other. -/
def maxDepth : Nat := 250

/-- What is wrong with a pattern. -/
inductive FaultKind where
  /-- An escape inside a class stands for no character. -/
  | classEscape
  /-- A range of characters ends before it starts. -/
  | classRange
  /-- A range of characters ends in something that is no character. -/
  | classRangeEnd
  /-- A class has no closing bracket. -/
  | classUnclosed
  /-- A number does not fit into 32 bits. -/
  | decimalInvalid
  /-- There are no digits between the braces of a character. -/
  | hexEmpty
  /-- A number is that of no character. -/
  | hexInvalid
  /-- A digit of a character is none to the base sixteen. -/
  | hexDigit
  /-- The pattern ends inside an escape. -/
  | escapeEnd
  /-- An escape has no meaning. -/
  | escapeUnknown
  /-- A minus sign has no flag behind it. -/
  | flagDangling
  /-- A flag stands twice. -/
  | flagDuplicate
  /-- A minus sign stands twice. -/
  | flagNegationTwice
  /-- The pattern ends among flags. -/
  | flagEnd
  /-- There is no such flag. -/
  | flagUnknown
  /-- Two groups have the same name. -/
  | nameDuplicate
  /-- The name of a group has no characters. -/
  | nameEmpty
  /-- A character cannot stand in the name of a group. -/
  | nameInvalid
  /-- The pattern ends inside the name of a group. -/
  | nameEnd
  /-- A group has no closing parenthesis. -/
  | groupUnclosed
  /-- A closing parenthesis closes nothing. -/
  | groupUnopened
  /-- The parts of the pattern lie too deep within each other. -/
  | tooDeep
  /-- A repetition has a greatest count below its least one. -/
  | countRange
  /-- A repetition has no number where one is needed. -/
  | countEmpty
  /-- A repetition has no closing brace. -/
  | countUnclosed
  | nothingToRepeat
  /-- The braces behind a word boundary hold something else than a name, or are not closed. -/
  | boundaryUnclosed
  /-- There is no such word boundary. -/
  | boundaryUnknown
  /-- The pattern ends behind the brace that follows a word boundary. -/
  | boundaryEnd
  /-- A backslash stands for a property. -/
  | propertyInvalid
  /-- A digit refers back to a group. -/
  | backreference
  /-- A group looks ahead or behind. -/
  | lookAround
  /-- A class of bytes holds a character that is not ASCII. -/
  | notAscii
  /-- The pattern would match a part of a character. -/
  | partOfCharacter
  /-- There is no table of this property. -/
  | propertyUnknown
  /-- There is no table of this value of a property. -/
  | propertyValueUnknown
  /-- There are no tables for digits, blanks and words. -/
  | classTableMissing
  /-- There are no tables for upper and lower case. -/
  | caseTableMissing
deriving DecidableEq, Repr, Inhabited

/-- The wording of what is wrong with a pattern. -/
def FaultKind.message : FaultKind → String
  | classEscape => "invalid escape sequence found in character class"
  | classRange => "invalid character class range, the start must be <= the end"
  | classRangeEnd => "invalid range boundary, must be a literal"
  | classUnclosed => "unclosed character class"
  | decimalInvalid => "decimal literal invalid"
  | hexEmpty => "hexadecimal literal empty"
  | hexInvalid => "hexadecimal literal is not a Unicode scalar value"
  | hexDigit => "invalid hexadecimal digit"
  | escapeEnd => "incomplete escape sequence, reached end of pattern prematurely"
  | escapeUnknown => "unrecognized escape sequence"
  | flagDangling => "dangling flag negation operator"
  | flagDuplicate => "duplicate flag"
  | flagNegationTwice => "flag negation operator repeated"
  | flagEnd => "expected flag but got end of regex"
  | flagUnknown => "unrecognized flag"
  | nameDuplicate => "duplicate capture group name"
  | nameEmpty => "empty capture group name"
  | nameInvalid => "invalid capture group character"
  | nameEnd => "unclosed capture group name"
  | groupUnclosed => "unclosed group"
  | groupUnopened => "unopened group"
  | tooDeep => s!"exceed the maximum number of nested parentheses/brackets ({maxDepth})"
  | countRange => "invalid repetition count range, the start must be <= the end"
  | countEmpty => "repetition quantifier expects a valid decimal"
  | countUnclosed => "unclosed counted repetition"
  | nothingToRepeat => "repetition operator missing expression"
  | boundaryUnclosed =>
    "special word boundary assertion is either unclosed or contains an invalid character"
  | boundaryUnknown =>
    "unrecognized special word boundary assertion, "
      ++ "valid choices are: start, end, start-half or end-half"
  | boundaryEnd =>
    "found either the beginning of a special word boundary or a bounded repetition on a \\b "
      ++ "with an opening brace, but no closing brace"
  | propertyInvalid => "invalid Unicode character class"
  | backreference => "backreferences are not supported"
  | lookAround => "look-around, including look-ahead and look-behind, is not supported"
  | notAscii => "Unicode not allowed here"
  | partOfCharacter => "pattern can match invalid UTF-8"
  | propertyUnknown => "Unicode property not found"
  | propertyValueUnknown => "Unicode property value not found"
  | classTableMissing =>
    "Unicode-aware Perl class not found (make sure the unicode-perl feature is enabled)"
  | caseTableMissing =>
    "Unicode-aware case insensitivity matching is not available "
      ++ "(make sure the unicode-case feature is enabled)"

/-- What is wrong with a pattern, and where. -/
structure Fault where
  /-- Where it is wrong. -/
  span : Span
  /-- What is wrong. -/
  kind : FaultKind
  /-- The part of the pattern with which it is in conflict, if there is one. -/
  other : Option Span
deriving DecidableEq, Repr

namespace Fault

/-- The lines of a text, without what ends them. -/
def linesOf (text : String) : List String :=
  let lines := text.splitOn "\n"
  let ended := lines.dropLast.map fun line =>
    if line.endsWith "\r" then (line.dropEnd 1).toString else line
  ended ++ (lines.getLast?.toList.filter (· ≠ ""))

/-- A number of copies of a character. -/
def copies (n : Nat) (c : Char) : String := String.ofList (List.replicate n c)

/-- The marks below a line, for spans of that line in ascending order. -/
def marks (spans : List Span) : String :=
  spans.foldl (fun row span =>
    row ++ copies (span.start.column - 1 - row.length) ' '
      ++ copies (max 1 (span.stop.column - span.start.column)) '^') ""

/-- The spans of a fault, in ascending order. -/
def spans (f : Fault) : List Span :=
  match f.other with
  | none => [f.span]
  | some other => if f.span.isUpTo other then [f.span, other] else [other, f.span]

/-- A line with its front, and the marks below it, if there are any. -/
def notedLine (front : String) (padding : Nat) (line : String) (spans : List Span) :
    List String :=
  (front ++ line) :: (if spans.isEmpty then [] else [copies padding ' ' ++ marks spans])

/-- The lines of a pattern with marks. Several lines are numbered. -/
def notedLines (pattern : String) (spans : List Span) : List String :=
  let lines := linesOf pattern
  let count := lines.length + (if pattern.endsWith "\n" then 1 else 0)
  let width := (toString count).length
  (lines.zipIdx.map fun (line, i) =>
    let here := spans.filter fun span => span.start.line = i + 1 && span.stop.line = i + 1
    if count ≤ 1 then notedLine "    " 4 line here
    else
      let number := toString (i + 1)
      let front := copies (width - number.length) ' ' ++ number ++ ": "
      notedLine front (width + 2) line here).flatten

/-- The text for a span of several lines. -/
def acrossLines (span : Span) : String :=
  s!"on line {span.start.line} (column {span.start.column}) through "
    ++ s!"line {span.stop.line} (column {span.stop.column - 1})"

/-- The text that shows what is wrong with a pattern. -/
def report (f : Fault) (pattern : String) : String :=
  let noted := notedLines pattern f.spans
  let body :=
    if pattern.toList.contains '\n' then
      let divider := copies 79 '~'
      divider :: noted ++ divider ::
        (f.spans.filter fun span => span.start.line ≠ span.stop.line).map acrossLines
    else noted
  "\n".intercalate ("regex parse error:" :: body ++ ["error: " ++ f.kind.message])

end Fault

end Folio.Pattern
