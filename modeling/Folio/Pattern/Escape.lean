import Folio.Pattern.Expression
import Folio.Pattern.Reader

/-!
# Characters and escapes

The smallest parts of a pattern: characters that stand for themselves, and escapes for characters,
classes and assertions.

## Main definitions

* `Literal` — a character, and how it is written
* `Primitive` — a smallest part of a pattern
* `readEscape` — reads an escape
* `Primitive.expression` — what a smallest part matches
-/

namespace Folio.Pattern

/-- A character of a pattern. -/
structure Literal where
  /-- The character. -/
  char : Char
  /-- Where it stands. -/
  span : Span
  /-- Whether it is written as a byte, with two digits. -/
  isByte : Bool
deriving Repr

/-- An assertion as it is written. -/
inductive Assertion where
  /-- The start of a line, or of the text. -/
  | lineStart
  /-- The end of a line, or of the text. -/
  | lineEnd
  | textStart
  | textEnd
  /-- Something about words. -/
  | word (look : WordLook)
deriving Repr

/-- What an assertion means. -/
def Assertion.look (flags : Flags) : Assertion → Look
  | lineStart => if flags.multiLine then .lineStart flags.returns else .textStart
  | lineEnd => if flags.multiLine then .lineEnd flags.returns else .textEnd
  | textStart => .textStart
  | textEnd => .textEnd
  | word look => .word look !flags.unicode

/-- A smallest part of a pattern. -/
inductive Primitive where
  /-- A character. -/
  | literal (literal : Literal)
  /-- Any character. -/
  | dot (span : Span)
  | assertion (span : Span) (assertion : Assertion)
  /-- The characters of a common kind, or all others. -/
  | kind (span : Span) (set : CharSet) (negated : Bool)
  /-- The characters with a property, of which there is no table. -/
  | property (span : Span) (lack : FaultKind)
deriving Repr

/-- Where a smallest part stands. -/
def Primitive.span : Primitive → Span
  | literal l => l.span
  | dot span | assertion span _ | kind span .. | property span _ => span

/-! ### Escapes -/

/-- Whether a character is a digit to the base sixteen. -/
def isHexDigit (c : Char) : Bool :=
  c.isDigit || ('a' ≤ c && c ≤ 'f') || ('A' ≤ c && c ≤ 'F')

/-- The number that digits to the base sixteen stand for. -/
def hexNumber (digits : List Char) : Nat :=
  digits.foldl (fun n c =>
    16 * n + (if c.isDigit then c.toNat - 0x30 else c.toLower.toNat - 0x57)) 0

/-- The character of a code point. -/
def charOfCode? (code : Nat) : Option Char :=
  if code.isValidChar then some (Char.ofNat code) else none

/-- Reads `count` digits to the base sixteen. -/
def readHexDigits : (count : Nat) → Reader (List Char)
  | 0 => return []
  | count + 1 => do
    match ← Reader.peek with
    | none => Reader.failHere .escapeEnd
    | some c =>
      if isHexDigit c then
        Reader.advance
        return c :: (← readHexDigits count)
      else Reader.fail (← Reader.charSpan) .hexDigit

/-- Reads a character that is given by `count` digits, or by digits between braces, for an escape
that starts at the given place. -/
def readHex (start : Place) (count : Nat) : Reader Literal := do
  Reader.advance
  let first ← Reader.here
  match ← Reader.peek with
  | none => Reader.failHere .escapeEnd
  | some '\x7b' =>
    let inner := (← Reader.charSpan).stop
    Reader.advance
    let digits ← Reader.collect isHexDigit
    match ← Reader.peek with
    | none => Reader.failFrom first .escapeEnd
    | some '\x7d' =>
      let stop ← Reader.here
      Reader.advance
      if digits.isEmpty then Reader.failFrom first .hexEmpty
      else
        match charOfCode? (hexNumber digits) with
        | none => Reader.fail ⟨inner, stop⟩ .hexInvalid
        | some c => return ⟨c, ← Reader.spanFrom start, false⟩
    | some _ => Reader.fail (← Reader.charSpan) .hexDigit
  | some _ =>
    let digits ← readHexDigits count
    match charOfCode? (hexNumber digits) with
    | none => Reader.failFrom first .hexInvalid
    | some c => return ⟨c, ← Reader.spanFrom start, count = 2⟩

/-- The name of a property in its plain form: in lower case, and without what does not count. -/
def plainName (name : List Char) : String :=
  let lowered := name.map Char.toLower
  let isLed := ['i', 's'].isPrefixOf lowered
  let plain := (if isLed then lowered.drop 2 else lowered).filter fun c =>
    c ≠ ' ' && c ≠ '_' && c ≠ '-' && c.toNat < 0x80
  if isLed && plain == ['c'] then "isc" else String.ofList plain

/-- What is missing for a property. Three names are those of values only. -/
def lackOfProperty (name : List Char) : FaultKind :=
  if name.contains ':' || name.contains '=' then .propertyUnknown
  else if ["cf", "sc", "lc"].contains (plainName name) then .propertyValueUnknown
  else .propertyUnknown

/-- Reads the name of a property, for an escape that starts at the given place. -/
def readProperty (start : Place) : Reader Primitive := do
  Reader.advance
  match ← Reader.peek with
  | none => Reader.failHere .escapeEnd
  | some '\x7b' =>
    Reader.advance
    let name ← Reader.collect (· ≠ '\x7d')
    if ← Reader.atEnd then Reader.failHere .escapeEnd
    else
      Reader.bump
      return .property (← Reader.spanFrom start) (lackOfProperty name)
  | some '\\' => Reader.fail (← Reader.charSpan) .propertyInvalid
  | some c =>
    Reader.advance
    return .property (← Reader.spanFrom start) (lackOfProperty [c])

/-- Whether a character can stand in the name of a word boundary. -/
def isBoundaryChar (c : Char) : Bool := c.isAlpha || c == '-'

/-- The word boundary of a name. -/
def boundary? (name : String) : Option WordLook :=
  match name with
  | "start" => some .start
  | "end" => some .stop
  | "start-half" => some .noneBefore
  | "end-half" => some .noneBehind
  | _ => none

/-- Reads the name of a word boundary between braces, for an escape that starts at the given place.
Anything but a letter there belongs to a repetition, and is left alone. -/
def readBoundary (start : Place) : Reader WordLook := do
  if (← Reader.peek) ≠ some '\x7b' then return .edge
  let before ← get
  let brace ← Reader.here
  Reader.advance
  let inner ← Reader.here
  match ← Reader.peek with
  | none => Reader.failFrom start .boundaryEnd
  | some c =>
    if !isBoundaryChar c then
      set before
      return .edge
    let name ← Reader.collect isBoundaryChar
    if (← Reader.peek) ≠ some '\x7d' then Reader.failFrom brace .boundaryUnclosed
    else
      let stop ← Reader.here
      Reader.bump
      match boundary? (String.ofList name) with
      | some look => return look
      | none => Reader.fail ⟨inner, stop⟩ .boundaryUnknown

/-- Whether a character has a meaning of its own in a pattern. -/
def isMeta (c : Char) : Bool := "\\.+*?()|[]\x7b\x7d^$#&-~".toList.contains c

/-- Whether a character stands for itself behind a backslash: all of ASCII but letters, digits, and
angle brackets. -/
def isEscapable (c : Char) : Bool :=
  isMeta c || (c.toNat < 0x80 && !c.isAlphanum && c ≠ '<' && c ≠ '>')

/-- The character that an escape of one letter stands for. -/
def control? (c : Char) : Option Char :=
  match c with
  | 'a' => some '\x07'
  | 'f' => some '\x0c'
  | 't' => some '\t'
  | 'n' => some '\n'
  | 'r' => some '\r'
  | 'v' => some '\x0b'
  | _ => none

/-- The assertion that an escape of one character stands for. -/
def assertion? (c : Char) : Option Assertion :=
  match c with
  | 'A' => some .textStart
  | 'z' => some .textEnd
  | 'B' => some (.word .noEdge)
  | '<' => some (.word .start)
  | '>' => some (.word .stop)
  | _ => none

/-- The common kind of characters that an escape of one letter stands for. -/
def kind? (c : Char) : Option CharSet :=
  match c.toLower with
  | 'd' => some .digits
  | 's' => some .blanks
  | 'w' => some .words
  | _ => none

/-- Reads an escape. -/
def readEscape : Reader Primitive := do
  let start ← Reader.here
  Reader.bump
  match ← Reader.peek with
  | none => Reader.failFrom start .escapeEnd
  | some c =>
    if c.isDigit then Reader.fail ⟨start, (← Reader.charSpan).stop⟩ .backreference
    else if c = 'x' then return .literal (← readHex start 2)
    else if c = 'u' then return .literal (← readHex start 4)
    else if c = 'U' then return .literal (← readHex start 8)
    else if c = 'p' || c = 'P' then readProperty start
    else
      Reader.bump
      let span ← Reader.spanFrom start
      if isEscapable c then return .literal ⟨c, span, false⟩
      else if c = 'b' then
        let look ← readBoundary start
        return .assertion (← Reader.spanFrom start) (.word look)
      else
        match kind? c, control? c, assertion? c with
        | some set, _, _ => return .kind span set c.isUpper
        | _, some char, _ => return .literal ⟨char, span, false⟩
        | _, _, some assertion => return .assertion span assertion
        | _, _, _ => Reader.fail span .escapeUnknown

/-! ### Meaning -/

/-- The characters of a class of bytes. Others than ASCII characters would match a part of a
character. -/
def asciiOnly (span : Span) (set : CharSet) : Reader CharSet := do
  if !set.isAscii then Reader.note span .partOfCharacter
  return set

/-- The last byte. -/
def lastByte : Nat := 0xFF

/-- The characters of a common kind, or all others. -/
def kindSet (span : Span) (set : CharSet) (negated : Bool) : Reader CharSet := do
  if (← Reader.flags).unicode then
    Reader.note span .classTableMissing
    return set
  else asciiOnly span (if negated then set.complement lastByte else set)

/-- The characters with a property. -/
def propertySet (span : Span) (lack : FaultKind) : Reader CharSet := do
  Reader.note span (if (← Reader.flags).unicode then lack else .notAscii)
  return .empty

/-- The characters that a literal matches. -/
def literalSet (l : Literal) : Reader CharSet := do
  let flags ← Reader.flags
  let set := CharSet.single l.char.toNat
  if flags.unicode then
    if flags.ignoreCase then Reader.note l.span .caseTableMissing
    return set
  else
    if l.isByte && 0x80 ≤ l.char.toNat then Reader.note l.span .partOfCharacter
    return if flags.ignoreCase then set.closeCase else set

/-- The characters that a dot matches. -/
def dotSet (span : Span) : Reader CharSet := do
  let flags ← Reader.flags
  if !flags.unicode then Reader.note span .partOfCharacter
  let ends := if flags.dotAll then [] else if flags.returns then ['\n', '\r'] else ['\n']
  return (CharSet.ofRanges (ends.map fun c => (c.toNat, c.toNat))).complement CharSet.lastCode

/-- What a smallest part of a pattern matches. -/
def Primitive.expression : Primitive → Reader Expression
  | literal l => return .one (← literalSet l)
  | dot span => return .one (← dotSet span)
  | assertion _ a => return .look (a.look (← Reader.flags))
  | kind span set negated => return .one (← kindSet span set negated)
  | property span lack => return .one (← propertySet span lack)

end Folio.Pattern
