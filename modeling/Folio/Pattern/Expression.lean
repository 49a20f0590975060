import Folio.Pattern.CharSet

/-!
# Expressions and their matches

An expression matches parts of a text. It is carried out on sets of places: from the places where a
match may start it leads to those where the match may stop.

## Main definitions

* `Expression` — characters, assertions about a place, sequences, choices, repetitions
* `Expression.times` — a repetition, without what it cannot need
* `Look.holds` — whether an assertion holds at a place
* `Expression.reach` — the places where a match may stop
* `Expression.isMatch` — whether a part of a text matches
* `Expression.weight` — how large the expression is when its repetitions are written out
-/

namespace Folio.Pattern

/-- What is asserted about the words next to a place. -/
inductive WordLook where
  /-- A word starts or ends. -/
  | edge
  /-- No word starts and none ends. -/
  | noEdge
  /-- A word starts. -/
  | start
  /-- A word ends. -/
  | stop
  /-- No word is before the place. -/
  | noneBefore
  /-- No word is behind the place. -/
  | noneBehind
deriving DecidableEq, Repr

/-- What is asserted about a place. -/
inductive Look where
  | textStart
  | textEnd
  /-- It is the start of a line. Lines may also end in carriage returns if `returns` says so. -/
  | lineStart (returns : Bool)
  | lineEnd (returns : Bool)
  /-- It stands in some way to words. Without `ascii`, a table says what words are made of. -/
  | word (look : WordLook) (ascii : Bool)
deriving DecidableEq, Repr

/-- A regular expression. -/
inductive Expression where
  /-- Nothing. -/
  | empty
  /-- One character of a set. -/
  | one (set : CharSet)
  /-- An assertion about a place. -/
  | look (look : Look)
  /-- One expression after the other. -/
  | seq (first second : Expression)
  /-- One of two expressions. -/
  | either (first second : Expression)
  /-- An expression at least so often, and at most so often if there is a bound. -/
  | repeated (body : Expression) (least : Nat) (most : Option Nat)
deriving Repr, Inhabited

namespace Look

/-- Whether an assertion holds at a place where a word has a character before it, or behind it. -/
def wordHolds (before behind : Bool) : WordLook → Bool
  | .edge => before != behind
  | .noEdge => before == behind
  | .start => !before && behind
  | .stop => before && !behind
  | .noneBefore => !before
  | .noneBehind => !behind

/-- Whether an assertion holds at a place. -/
def holds (text : Array Char) (i : Nat) (look : Look) : Bool :=
  let before := if i = 0 then none else text[i - 1]?
  let behind := text[i]?
  match look with
  | textStart => i == 0
  | textEnd => i == text.size
  | lineStart false => i == 0 || before == some '\n'
  | lineStart true => i == 0 || before == some '\n' || (before == some '\r' && behind != some '\n')
  | lineEnd false => i == text.size || behind == some '\n'
  | lineEnd true =>
    i == text.size || behind == some '\r' || (behind == some '\n' && before != some '\r')
  | word look _ => wordHolds (before.any CharSet.words.contains) (behind.any CharSet.words.contains)
      look

end Look

namespace Expression

/-- Expressions one after another. -/
def ofSequence : List Expression → Expression
  | [] => empty
  | [e] => e
  | e :: rest => seq e (ofSequence rest)

/-- One of several expressions. -/
def ofChoices : List Expression → Expression
  | [] => empty
  | [e] => e
  | e :: rest => either e (ofChoices rest)

/-- Whether an expression can match some characters. -/
def canAdvance : Expression → Bool
  | empty | look _ => false
  | one _ => true
  | seq a b | either a b => a.canAdvance || b.canAdvance
  | repeated e _ most => e.canAdvance && most != some 0

/-- A repetition. What matches no characters is needed only once. -/
def times (e : Expression) (least : Nat) (most : Option Nat) : Expression :=
  let (least, most) :=
    if e.canAdvance then (least, most) else (min least 1, (most.map (min 1)).or (some 1))
  if most = some 0 then empty
  else if least = 1 ∧ most = some 1 then e
  else repeated e least most

/-- The places that are in one of two lists, in ascending order. -/
def merge (size : Nat) (a b : List Nat) : List Nat :=
  (List.range (size + 1)).filter fun i => a.contains i || b.contains i

/-- Follows a step `n` times. -/
def follow (step : List Nat → List Nat) : (n : Nat) → List Nat → List Nat
  | 0, places => places
  | n + 1, places =>
    let next := step places
    if next == places then places else follow step n next

/-- All places on the way when a step is followed up to `n` times. -/
def gather (size : Nat) (step : List Nat → List Nat) : (n : Nat) → List Nat → List Nat
  | 0, places => places
  | n + 1, places =>
    let next := merge size places (step places)
    if next == places then places else gather size step n next

/-- The places where a match may stop that starts at one of the given places, in ascending order. In
a text of `n` characters a repetition comes to no new places after `n + 1` times. -/
def reach (text : Array Char) : Expression → List Nat → List Nat
  | empty, places => places
  | one set, places => places.filterMap fun i =>
      if text[i]?.any set.contains then some (i + 1) else none
  | look l, places => places.filter fun i => l.holds text i
  | seq a b, places => b.reach text (a.reach text places)
  | either a b, places => merge text.size (a.reach text places) (b.reach text places)
  | repeated e least most, places =>
    let needed := follow (e.reach text) (min least (text.size + 1)) places
    let more := match most with
      | some most => min (most - least) (text.size + 1)
      | none => text.size + 1
    gather text.size (e.reach text) more needed

/-- Whether a part of a text matches. -/
def isMatch (e : Expression) (text : String) : Bool :=
  let text := text.toList.toArray
  !(e.reach text (List.range (text.size + 1))).isEmpty

/-- Whether an expression asks for a table of what words are made of. -/
def needsWordTable : Expression → Bool
  | empty | one _ => false
  | look (.word _ ascii) => !ascii
  | look _ => false
  | seq a b | either a b => a.needsWordTable || b.needsWordTable
  | repeated e _ _ => e.needsWordTable

/-- The number of bytes of a code point. -/
def codeSize (code : Nat) : Nat :=
  if code < 0x80 then 1 else if code < 0x800 then 2 else if code < 0x10000 then 3 else 4

/-- The weight of a set of characters that has others than ASCII characters. -/
def wideWeight : Nat := 30

/-- The weight of a set of characters. -/
def setWeight (set : CharSet) : Nat :=
  match set.ranges with
  | [range] =>
    if range.1 = range.2 then codeSize range.1 else if set.isAscii then 2 else wideWeight
  | _ => if set.isAscii then 2 else wideWeight

/-- The number of steps of an expression whose repetitions are written out. -/
def weight : Expression → Nat
  | empty | look _ => 1
  | one set => setWeight set
  | seq a b => a.weight + b.weight
  | either a b => a.weight + b.weight + 1
  | repeated e least none => max least 1 * e.weight + 1
  | repeated e least (some most) => least * e.weight + (most - least) * (e.weight + 1) + 1

end Expression

end Folio.Pattern
