import Folio.Pattern.Escape
import Folio.Pattern.Outline

/-!
# Classes between brackets

A class is a union of characters, ranges and other classes. Two signs between unions intersect
them, or take one from the other. Classes within classes are read with a stack of those that are
still open.

## Main definitions

* `SetOperation` — what two equal signs between unions do
* `OpenClass` — a class that is still open
* `readClass` — reads a class
-/

namespace Folio.Pattern

/-- What two equal signs between unions do. -/
inductive SetOperation where
  /-- Only what is in both counts. -/
  | inter
  /-- What is in the second one is taken from the first. -/
  | diff
  /-- Only what is in one of them counts. -/
  | symmDiff

/-- The operation that a sign stands for if it stands twice. -/
def SetOperation.ofSign? (sign : Char) : Option SetOperation :=
  match sign with
  | '&' => some .inter
  | '-' => some .diff
  | '~' => some .symmDiff
  | _ => none

/-- The outcome of an operation. -/
def SetOperation.apply : SetOperation → CharSet → CharSet → CharSet
  | inter => CharSet.inter
  | diff => CharSet.diff
  | symmDiff => CharSet.symmDiff

/-- A part of a class, with the characters that it holds. -/
structure ClassPart where
  /-- How its parts lie within each other. -/
  outline : Outline
  /-- The characters. -/
  set : CharSet

/-- A class that is still open. -/
structure OpenClass where
  /-- The bracket that opens it, with what belongs to it. -/
  opened : Span
  /-- Whether the class holds all other characters. -/
  negated : Bool
  /-- What stands before the last pair of signs, and what they do. -/
  left : Option (SetOperation × ClassPart)
  /-- Where the union behind them starts. -/
  start : Place
  /-- The parts of this union, the last one first. -/
  parts : List ClassPart

namespace OpenClass

/-- Adds a part to a union. -/
def add (c : OpenClass) (part : ClassPart) : OpenClass := { c with parts := part :: c.parts }

/-- The union of the parts. -/
def union (c : OpenClass) : ClassPart :=
  match c.parts with
  | [] => ⟨.leaf ⟨c.start, c.start⟩, .empty⟩
  | [part] => part
  | last :: _ =>
    let parts := c.parts.reverse
    let start := (parts.head?.map fun part => part.outline.span.start).getD c.start
    ⟨.node ⟨start, last.outline.span.stop⟩ (parts.map ClassPart.outline),
      .ofRanges (parts.flatMap fun part => part.set.ranges)⟩

end OpenClass

/-- The characters of a class when both forms of a letter match. There are tables of them for
classes of ASCII characters only. -/
def foldedSet (part : ClassPart) : Reader CharSet := do
  let flags ← Reader.flags
  if !flags.ignoreCase then return part.set
  else if flags.unicode then
    if !part.set.isEmpty then Reader.note part.outline.span .caseTableMissing
    return part.set
  else return part.set.closeCase

/-- The characters of a class, or all others. -/
def settledSet (span : Span) (negated : Bool) (set : CharSet) : Reader CharSet := do
  let set ← foldedSet ⟨.leaf span, set⟩
  if (← Reader.flags).unicode then return if negated then set.complement CharSet.lastCode else set
  else asciiOnly span (if negated then set.complement lastByte else set)

/-- What stands between a bracket, or a pair of signs, and the place: the union, together with what
is left of it. -/
def OpenClass.whole (c : OpenClass) : Reader ClassPart := do
  let right := c.union
  match c.left with
  | none => return right
  | some (operation, left) =>
    let rightSet ← foldedSet right
    let leftSet ← foldedSet left
    let span := Span.mk left.outline.span.start right.outline.span.stop
    return ⟨.node span [left.outline, right.outline], operation.apply leftSet rightSet⟩

/-! ### Items -/

/-- The code points that a literal stands for in a class. -/
def classCodes (l : Literal) : Reader (Option Nat) := do
  if (← Reader.flags).unicode || l.char.toNat < 0x80 then return some l.char.toNat
  else
    Reader.note l.span (if l.isByte then .partOfCharacter else .notAscii)
    return none

/-- The characters from one literal to another. -/
def classRange (first last : Literal) : Reader CharSet := do
  match ← classCodes first, ← classCodes last with
  | some first, some last => return ⟨[(first, last)]⟩
  | _, _ => return .empty

/-- The part of a class that a smallest part of a pattern is. -/
def Primitive.classPart (p : Primitive) : Reader ClassPart := do
  let part := ClassPart.mk (.leaf p.span)
  match p with
  | .literal l => return part (← classRange l l)
  | .kind span set negated => return part (← kindSet span set negated)
  | .property span lack => return part (← propertySet span lack)
  | .dot span | .assertion span _ => Reader.fail span .classEscape

/-- The literal that a smallest part of a pattern is. -/
def Primitive.toLiteral : Primitive → Reader Literal
  | literal l => return l
  | p => Reader.fail p.span .classRangeEnd

/-- Reads a character or an escape inside a class. -/
def readClassPrimitive : Reader Primitive := do
  match ← Reader.peek with
  | some '\\' => readEscape
  | c =>
    let span ← Reader.charSpan
    Reader.bump
    return .literal ⟨c.getD ' ', span, false⟩

/-- Reads a character, an escape or a range inside a class that is open from `opened` on. -/
def readClassItem (opened : Span) : Reader ClassPart := do
  let first ← readClassPrimitive
  Reader.skipBlanks
  if ← Reader.atEnd then Reader.fail opened .classUnclosed
  let behind ← Reader.peekBehindBlanks
  if (← Reader.peek) ≠ some '-' || behind = some ']' || behind = some '-' then first.classPart
  else
    Reader.advance
    if ← Reader.atEnd then Reader.fail opened .classUnclosed
    let last ← readClassPrimitive
    let span := Span.mk first.span.start last.span.stop
    let first ← first.toLiteral
    let last ← last.toLiteral
    if last.char < first.char then Reader.fail span .classRange
    return ⟨.leaf span, ← classRange first last⟩

/-- The class of a name between brackets and colons, and the text behind it. -/
def namedClass? (text : List Char) : Option (Bool × CharSet × List Char) :=
  match text with
  | '[' :: ':' :: rest =>
    let negated := rest.head? = some '^'
    let rest := if negated then rest.drop 1 else rest
    let name := rest.takeWhile (· ≠ ':')
    match rest.drop name.length with
    | ':' :: ']' :: rest =>
      (asciiClass? (String.ofList name)).map fun set => (negated, set, rest)
    | _ => none
  | _ => none

/-- Reads the name of a class between brackets and colons, if there is one. -/
def readNamedClass : Reader (Option ClassPart) := do
  let start ← Reader.here
  let text := (← get).rest
  match namedClass? text with
  | none => return none
  | some (negated, set, rest) =>
    for _ in [0:text.length - rest.length] do Reader.bump
    let span ← Reader.spanFrom start
    return some ⟨.leaf span, ← settledSet span negated set⟩

/-! ### The class -/

/-- Reads minus signs, which stand for themselves at the front of a class. `fuel` bounds their
number. -/
def readDashes (start : Place) : (fuel : Nat) → List ClassPart → Reader (List ClassPart)
  | 0, parts => return parts
  | fuel + 1, parts => do
    if (← Reader.peek) ≠ some '-' then return parts
    let span ← Reader.charSpan
    Reader.advance
    if ← Reader.atEnd then Reader.fail ⟨start, start⟩ .classUnclosed
    readDashes start fuel (⟨.leaf span, .single '-'.toNat⟩ :: parts)

/-- Reads the front of a class: the bracket, the sign for all other characters, and what stands for
itself only there. -/
def readClassFront : Reader OpenClass := do
  let start ← Reader.here
  Reader.advance
  if ← Reader.atEnd then Reader.failFrom start .classUnclosed
  let negated := (← Reader.peek) = some '^'
  if negated then
    Reader.advance
    if ← Reader.atEnd then Reader.failFrom start .classUnclosed
  let inner ← Reader.here
  let parts ← readDashes start (← get).rest.length []
  if parts.isEmpty && (← Reader.peek) = some ']' then
    let span ← Reader.charSpan
    Reader.advance
    if ← Reader.atEnd then Reader.failFrom start .classUnclosed
    return ⟨← Reader.spanFrom start, negated, none, inner, [⟨.leaf span, .single ']'.toNat⟩]⟩
  else return ⟨← Reader.spanFrom start, negated, none, inner, parts⟩

/-- Reads the bracket that closes a class. -/
def OpenClass.close (c : OpenClass) : Reader ClassPart := do
  let inner ← c.whole
  Reader.bump
  let span ← Reader.spanFrom c.opened.start
  return ⟨.node span [inner.outline], ← settledSet span c.negated inner.set⟩

/-- Reads a pair of signs. -/
def OpenClass.operate (c : OpenClass) (operation : SetOperation) : Reader OpenClass := do
  Reader.bump
  Reader.bump
  let left ← c.whole
  return { c with left := some (operation, left), start := ← Reader.here, parts := [] }

/-- Reads a class to its end, from inside the class `c`, which lies in the classes `outer`. `fuel`
bounds the number of items. -/
def readClassFrom : (fuel : Nat) → (c : OpenClass) → (outer : List OpenClass) → Reader ClassPart
  | 0, c, _ => Reader.fail c.opened .classUnclosed
  | fuel + 1, c, outer => do
    Reader.skipBlanks
    match ← Reader.peek with
    | none => Reader.fail c.opened .classUnclosed
    | some '[' =>
      match ← readNamedClass with
      | some part => readClassFrom fuel (c.add part) outer
      | none => readClassFrom fuel (← readClassFront) (c :: outer)
    | some ']' =>
      let part ← c.close
      match outer with
      | [] => return part
      | above :: outer => readClassFrom fuel (above.add part) outer
    | some sign =>
      let behind ← Reader.peekBehind
      match if behind = some sign then SetOperation.ofSign? sign else none with
      | some operation => readClassFrom fuel (← c.operate operation) outer
      | none => readClassFrom fuel (c.add (← readClassItem c.opened)) outer

/-- Reads a class. -/
def readClass : Reader Piece := do
  let c ← readClassFront
  let part ← readClassFrom ((← get).rest.length + 1) c []
  return ⟨part.outline, .one part.set, true⟩

end Folio.Pattern
