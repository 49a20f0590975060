import Folio.Pattern.Class
import Folio.Text.GraphemeExtend
import Folio.Text.Unprintable

/-!
# Reading a pattern

A pattern is a choice of sequences of characters, classes, assertions and groups, which may be
repeated. Groups within groups are read with a stack of those that are still open.

## Main definitions

* `readFlags` — reads flags
* `OpenGroup` — a group that is still open
* `readGroupFront` — reads the front of a group, or flags that stand alone
* `readCount` — reads how often something is repeated
* `parse` — what a pattern matches
-/

namespace Folio.Pattern

/-! ### Flags -/

/-- A flag, or the sign that switches off the flags behind it. -/
inductive FlagItem where
  /-- Switches off the flags behind it. -/
  | negation
  | flag (letter : Char)
deriving DecidableEq, Repr

/-- The letters of flags. The last two of them make no difference to whether a text matches. -/
def flagLetters : List Char := ['i', 'm', 's', 'R', 'u', 'x', 'U']

/-- What a flag changes. -/
def Flags.switch (f : Flags) (letter : Char) (on : Bool) : Flags :=
  match letter with
  | 'i' => { f with ignoreCase := on }
  | 'm' => { f with multiLine := on }
  | 's' => { f with dotAll := on }
  | 'R' => { f with returns := on }
  | 'u' => { f with unicode := on }
  | 'x' => { f with spaced := on }
  | _ => f

/-- What flags change, one after another. -/
def Flags.apply (f : Flags) (items : List FlagItem) : Flags :=
  (items.foldl (fun (f, on) item =>
    match item with
    | .negation => (f, false)
    | .flag letter => (f.switch letter on, on)) (f, true)).1

/-- Reads flags up to the colon or parenthesis behind them. `seen` holds the ones so far, the last
one first, and where they stand. `fuel` bounds their number. -/
def readFlagsFrom : (fuel : Nat) → (seen : List (FlagItem × Span)) → Reader (List FlagItem)
  | 0, _ => Reader.failHere .flagEnd
  | fuel + 1, seen => do
    match ← Reader.peek with
    | none => Reader.failHere .flagEnd
    | some c =>
      if c = ':' || c = ')' then
        match seen with
        | (.negation, span) :: _ => Reader.fail span .flagDangling
        | _ => return (seen.map Prod.fst).reverse
      else
        let span ← Reader.charSpan
        if c ≠ '-' && !flagLetters.contains c then Reader.fail span .flagUnknown
        let item := if c = '-' then FlagItem.negation else .flag c
        match seen.lookup item with
        | some other =>
          throw ⟨span, if c = '-' then .flagNegationTwice else .flagDuplicate, some other⟩
        | none =>
          Reader.bump
          readFlagsFrom fuel ((item, span) :: seen)

/-- Reads flags up to the colon or parenthesis behind them. -/
def readFlags : Reader (List FlagItem) := do readFlagsFrom ((← get).rest.length + 1) []

/-! ### Groups -/

/-- A group that is still open, or the whole pattern. -/
structure OpenGroup where
  /-- The parenthesis that opens it. -/
  opened : Span
  /-- How the pattern is read behind it. -/
  outside : Flags
  /-- Where its first choice starts. -/
  choicesStart : Place
  /-- Its choices that are complete, the last one first. -/
  choices : List Piece
  /-- Where the choice behind them starts. -/
  start : Place
  /-- The parts of this choice, the last one first. -/
  parts : List Piece

namespace OpenGroup

/-- A group that has just been opened. -/
def enter (opened : Span) (outside : Flags) (place : Place) : OpenGroup :=
  ⟨opened, outside, place, [], place, []⟩

/-- Adds a part to the choice. -/
def add (g : OpenGroup) (piece : Piece) : OpenGroup := { g with parts := piece :: g.parts }

/-- The parts of the choice, one after another, up to a place. -/
def sequence (g : OpenGroup) (stop : Place) : Piece :=
  match g.parts.reverse with
  | [] => ⟨.leaf ⟨g.start, stop⟩, .empty, false⟩
  | [part] => part
  | parts => ⟨.node ⟨g.start, stop⟩ (parts.map Piece.outline),
      .ofSequence (parts.map Piece.expression), true⟩

/-- The choices of the group, up to a place. -/
def whole (g : OpenGroup) (stop : Place) : Piece :=
  let last := g.sequence stop
  if g.choices.isEmpty then last
  else
    let choices := (last :: g.choices).reverse
    ⟨.node ⟨g.choicesStart, stop⟩ (choices.map Piece.outline),
      .ofChoices (choices.map Piece.expression), true⟩

end OpenGroup

/-- Whether a character is a letter. Beyond ASCII, these are the characters that can be shown and
stand on their own. -/
def isLetter (c : Char) : Bool :=
  if c.toNat < 0x80 then c.isAlpha else Text.isPrintable c && !Text.extendsGrapheme c

/-- Whether a character can stand in the name of a group. -/
def isNameChar (isFirst : Bool) (c : Char) : Bool :=
  c = '_' || isLetter c || (!isFirst && (c.isDigit || c = '.' || c = '[' || c = ']'))

/-- Reads the characters of a name behind those in `read`, which holds the last one first. `fuel`
bounds their number. -/
def readNameFrom : (fuel : Nat) → (read : List Char) → Reader (List Char)
  | 0, read => return read.reverse
  | fuel + 1, read => do
    match ← Reader.peek with
    | none => Reader.failHere .nameEnd
    | some '>' => return read.reverse
    | some c =>
      if !isNameChar read.isEmpty c then Reader.fail (← Reader.charSpan) .nameInvalid
      Reader.bump
      readNameFrom fuel (c :: read)

/-- Reads the name of a group. -/
def readName : Reader Unit := do
  let start ← Reader.here
  let name := String.ofList (← readNameFrom ((← get).rest.length + 1) [])
  let span ← Reader.spanFrom start
  Reader.bump
  if name = "" then Reader.fail ⟨start, start⟩ .nameEmpty
  match (← get).names.lookup name with
  | some other => throw ⟨span, .nameDuplicate, some other⟩
  | none => modify fun r => { r with names := (name, span) :: r.names }

/-- The signs behind a parenthesis that would look ahead or behind. -/
def lookSigns : List String := ["?=", "?!", "?<=", "?<!"]

/-- Reads the front of a group. Flags that stand alone hold up to the end of the group that is open,
and are a part of it. -/
def readGroupFront : Reader (OpenGroup ⊕ Piece) := do
  let opened ← Reader.charSpan
  let outside ← Reader.flags
  Reader.advance
  for sign in lookSigns do
    if ← Reader.accept sign then Reader.failFrom opened.start .lookAround
  let inner ← Reader.here
  if (← Reader.accept "?P<") || (← Reader.accept "?<") then
    readName
    return .inl (.enter opened outside (← Reader.here))
  else if ← Reader.accept "?" then
    if ← Reader.atEnd then Reader.fail opened .groupUnclosed
    let items ← readFlags
    let alone := (← Reader.peek) = some ')'
    Reader.bump
    if alone && items.isEmpty then Reader.fail ⟨inner, inner⟩ .nothingToRepeat
    modify fun r => { r with flags := r.flags.apply items }
    if alone then return .inr ⟨.leaf (← Reader.spanFrom opened.start), .empty, false⟩
    else return .inl (.enter opened outside (← Reader.here))
  else return .inl (.enter opened outside (← Reader.here))

/-! ### Repetitions -/

/-- The largest count. -/
def maxCount : Nat := 4294967295

/-- Reads a count, with blanks around it. The fault of a missing count is given back. -/
def readNumber : Reader (Except Fault Nat) := do
  let _ ← Reader.collectPlain Text.isBlank
  let start ← Reader.here
  let digits ← Reader.collect Char.isDigit
  let span ← Reader.spanFrom start
  let _ ← Reader.collect Text.isBlank
  if digits.isEmpty then return .error ⟨span, .countEmpty, none⟩
  let n := digits.foldl (fun n c => 10 * n + (c.toNat - 0x30)) 0
  if maxCount < n then return .error ⟨span, .decimalInvalid, none⟩ else return .ok n

/-- Reads between braces how often something is repeated: the least count, and the greatest one if
there is one. -/
def readCount : Reader (Nat × Option Nat) := do
  let start ← Reader.here
  let unclosed {α : Type} : Reader α := Reader.failFrom start .countUnclosed
  Reader.advance
  if ← Reader.atEnd then unclosed
  let least ← readNumber
  if ← Reader.atEnd then unclosed
  let mut most := least.toOption
  if (← Reader.peek) = some ',' then
    Reader.advance
    if ← Reader.atEnd then unclosed
    most := none
    if (← Reader.peek) ≠ some '\x7d' then
      let _ ← least
      most := some (← (← readNumber))
  let least ← least
  if (← Reader.peek) ≠ some '\x7d' then unclosed
  Reader.advance
  if (← Reader.peek) = some '?' then Reader.bump
  if most.any (· < least) then Reader.failFrom start .countRange
  return (least, most)

/-- Reads a sign for a repetition: the least count, and the greatest one if there is one. -/
def readSign (least : Nat) (most : Option Nat) : Reader (Nat × Option Nat) := do
  Reader.bump
  if (← Reader.peek) = some '?' then Reader.bump
  return (least, most)

/-- Repeats the last part of a group. -/
def OpenGroup.repeatLast (g : OpenGroup) (count : Reader (Nat × Option Nat)) :
    Reader OpenGroup := do
  match g.parts with
  | [] => Reader.failHere .nothingToRepeat
  | part :: parts =>
    if !part.repeatable then Reader.failHere .nothingToRepeat
    let (least, most) ← count
    let span ← Reader.spanFrom part.outline.span.start
    return { g with parts := ⟨.node span [part.outline], part.expression.times least most, true⟩
                      :: parts }

/-! ### The pattern -/

/-- Reads a smallest part of a pattern. -/
def readPrimitive (c : Char) : Reader Piece := do
  let span ← Reader.charSpan
  let plain (p : Primitive) : Reader Primitive := do
    Reader.bump
    return p
  let primitive ←
    if c = '\\' then readEscape
    else if c = '.' then plain (.dot span)
    else if c = '^' then plain (.assertion span .lineStart)
    else if c = '$' then plain (.assertion span .lineEnd)
    else plain (.literal ⟨c, span, false⟩)
  return ⟨.leaf primitive.span, ← primitive.expression, true⟩

/-- Reads the parenthesis that closes a group, which is then a part of the group around it. -/
def OpenGroup.close (g : OpenGroup) : Reader Piece := do
  modify fun r => { r with flags := g.outside }
  let inner := g.whole (← Reader.here)
  Reader.bump
  let span ← Reader.spanFrom g.opened.start
  return ⟨.node span [inner.outline], inner.expression, true⟩

/-- Ends a choice of a group. -/
def OpenGroup.nextChoice (g : OpenGroup) : Reader OpenGroup := do
  let choice := g.sequence (← Reader.here)
  Reader.bump
  return { g with choices := choice :: g.choices, start := ← Reader.here, parts := [] }

/-- Reads a pattern to its end, from inside the group `g`, which lies in the groups `outer`. `fuel`
bounds the number of parts. -/
def readFrom : (fuel : Nat) → (g : OpenGroup) → (outer : List OpenGroup) → Reader Piece
  | 0, g, _ => return g.whole (← Reader.here)
  | fuel + 1, g, outer => do
    Reader.skipBlanks
    match ← Reader.peek with
    | none =>
      if !outer.isEmpty then Reader.fail g.opened .groupUnclosed
      return g.whole (← Reader.here)
    | some '(' =>
      match ← readGroupFront with
      | .inl group => readFrom fuel group (g :: outer)
      | .inr flags => readFrom fuel (g.add flags) outer
    | some ')' =>
      match outer with
      | [] => Reader.fail (← Reader.charSpan) .groupUnopened
      | above :: outer => readFrom fuel (above.add (← g.close)) outer
    | some '|' => readFrom fuel (← g.nextChoice) outer
    | some '[' => readFrom fuel (g.add (← readClass)) outer
    | some '?' => readFrom fuel (← g.repeatLast (readSign 0 (some 1))) outer
    | some '*' => readFrom fuel (← g.repeatLast (readSign 0 none)) outer
    | some '+' => readFrom fuel (← g.repeatLast (readSign 1 none)) outer
    | some '\x7b' => readFrom fuel (← g.repeatLast readCount) outer
    | some c => readFrom fuel (g.add (← readPrimitive c)) outer

/-- What a pattern matches. -/
def parse (pattern : String) : Except Fault Expression := do
  let start := Place.first
  let chars := pattern.toList
  let group := OpenGroup.enter ⟨start, start⟩ .usual start
  let (piece, r) ← (readFrom (chars.length + 1) group []).run ⟨chars, start, .usual, [], none⟩
  if let some span := piece.outline.tooDeep? then throw ⟨span, .tooDeep, none⟩
  match r.missing with
  | some fault => throw fault
  | none => return piece.expression

end Folio.Pattern
