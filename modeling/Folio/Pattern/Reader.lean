import Folio.Pattern.Fault
import Folio.Text.Blank

/-!
# Reading the text of a pattern

The text is read from front to back. Flags in it change how what follows is read. A pattern that is
written well may still ask for something that is not there, which is told only if nothing is
wrong with the rest of it.

## Main definitions

* `Flags` — how a pattern is read
* `Reader` — reads a part of a pattern, or finds a fault
* `Reader.peek`, `Reader.bump`, `Reader.advance` — the characters, one after another
* `Reader.fail`, `Reader.note` — tell of a fault, at once or at the end
-/

namespace Folio.Pattern

/-- How a pattern is read. -/
structure Flags where
  /-- Whether both forms of a letter match. -/
  ignoreCase : Bool
  /-- Whether lines start and end inside the text. -/
  multiLine : Bool
  /-- Whether a dot matches the end of a line. -/
  dotAll : Bool
  /-- Whether carriage returns end lines, too. -/
  returns : Bool
  /-- Whether classes hold characters beyond ASCII. -/
  unicode : Bool
  /-- Whether blanks and comments in the pattern are left out. -/
  spaced : Bool
deriving DecidableEq, Repr

/-- How a pattern is read at its start. -/
def Flags.usual : Flags := ⟨false, false, false, false, true, false⟩

/-- What is left to read, and what has been found out so far. -/
structure Reading where
  /-- The characters that are left. -/
  rest : List Char
  /-- The place before them. -/
  place : Place
  /-- How they are read. -/
  flags : Flags
  /-- The names of groups so far, and where they stand. -/
  names : List (String × Span)
  /-- The first thing that is asked for and is not there. -/
  missing : Option Fault

/-- Reads a part of a pattern, or finds a fault. -/
abbrev Reader (α : Type) := StateT Reading (Except Fault) α

namespace Reader

/-- Tells of a fault. -/
def fail {α : Type} (span : Span) (kind : FaultKind) : Reader α := throw ⟨span, kind, none⟩

/-- Notes that something is asked for that is not there. -/
def note (span : Span) (kind : FaultKind) : Reader Unit :=
  modify fun r => { r with missing := r.missing.or (some ⟨span, kind, none⟩) }

/-- The place. -/
def here : Reader Place := return (← get).place

/-- How the pattern is read. -/
def flags : Reader Flags := return (← get).flags

/-- The text from a place up to here. -/
def spanFrom (start : Place) : Reader Span := return ⟨start, ← here⟩

/-- Tells of a fault in the text from a place up to here. -/
def failFrom {α : Type} (start : Place) (kind : FaultKind) : Reader α := do
  fail (← spanFrom start) kind

/-- Tells of a fault at the place. -/
def failHere {α : Type} (kind : FaultKind) : Reader α := do failFrom (← here) kind

/-- The next character. -/
def peek : Reader (Option Char) := return (← get).rest.head?

/-- Whether the pattern ends here. -/
def atEnd : Reader Bool := return (← get).rest.isEmpty

/-- The text of the next character. -/
def charSpan : Reader Span := do
  let r ← get
  return ⟨r.place, (r.rest.head?.map r.place.after).getD r.place⟩

/-- Reads the next character. -/
def bump : Reader Unit :=
  modify fun r =>
    match r.rest with
    | [] => r
    | c :: rest => { r with rest, place := r.place.after c }

/-- Leaves out blanks and comments at the front. -/
def withoutBlanks (comment : Bool) : List Char → Place → List Char × Place
  | [], place => ([], place)
  | c :: rest, place =>
    if comment then withoutBlanks (c != '\n') rest (place.after c)
    else if c = '#' then withoutBlanks true rest (place.after c)
    else if Text.isBlank c then withoutBlanks false rest (place.after c)
    else (c :: rest, place)

/-- Leaves out blanks and comments if they do not count. -/
def skipBlanks : Reader Unit :=
  modify fun r =>
    if r.flags.spaced then
      let (rest, place) := withoutBlanks false r.rest r.place
      { r with rest, place }
    else r

/-- Reads the next character and leaves out what does not count. -/
def advance : Reader Unit := do
  bump
  skipBlanks

/-- Reads the given characters if they are next, and says whether they are. -/
def accept (text : String) : Reader Bool := do
  let chars := text.toList
  if chars.isPrefixOf (← get).rest then
    for _ in chars do bump
    return true
  else return false

/-- The character behind the next one. -/
def peekBehind : Reader (Option Char) := return (← get).rest[1]?

/-- The character behind the next one, without blanks and the sign of a comment if they do not
count. -/
def peekBehindBlanks : Reader (Option Char) := do
  let r ← get
  if r.flags.spaced then
    let later := (r.rest.drop 1).dropWhile Text.isBlank
    if later.head? = some '#' then return ((later.drop 1).dropWhile Text.isBlank).head?
    else return later.head?
  else return r.rest[1]?

/-- Reads characters as long as they are of a kind. After each of them the reader `skip` goes on.
`fuel` bounds their number. -/
def collectUpTo (kind : Char → Bool) (skip : Reader Unit) : (fuel : Nat) → Reader (List Char)
  | 0 => return []
  | fuel + 1 => do
    match ← peek with
    | some c =>
      if kind c then
        bump
        skip
        return c :: (← collectUpTo kind skip fuel)
      else return []
    | none => return []

/-- Reads characters as long as they are of a kind, and leaves out what does not count between
them. -/
def collect (kind : Char → Bool) : Reader (List Char) := do
  collectUpTo kind skipBlanks (← get).rest.length

/-- Reads characters as long as they are of a kind. -/
def collectPlain (kind : Char → Bool) : Reader (List Char) := do
  collectUpTo kind (pure ()) (← get).rest.length

end Reader

end Folio.Pattern
