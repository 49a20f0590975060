import Folio.Pattern.Expression
import Folio.Pattern.Fault

/-!
# How the parts of a pattern lie within each other

## Main definitions

* `Outline` — the parts of a pattern, without what they mean
* `Outline.tooDeep?` — the first part that lies too deep
* `Piece` — a part of a pattern, with what it means
-/

namespace Folio.Pattern

/-- The parts of a pattern, without what they mean. -/
inductive Outline where
  /-- A part without parts of its own. -/
  | leaf (span : Span)
  /-- A part that is made of others. -/
  | node (span : Span) (parts : List Outline)

namespace Outline

/-- Where a part stands. -/
def span : Outline → Span
  | leaf span | node span _ => span

mutual

/-- The first part that lies within more others than it may. `room` is the number of further parts
that may lie within each other. -/
def firstBelow (room : Nat) : Outline → Option Span
  | leaf _ => none
  | node span parts => if room = 0 then some span else firstAmong (room - 1) parts

/-- The first of all parts among several that lies within more others than it may. -/
def firstAmong (room : Nat) : List Outline → Option Span
  | [] => none
  | part :: parts => (firstBelow room part).or (firstAmong room parts)

end

/-- The first part that lies too deep within others. -/
def tooDeep? (o : Outline) : Option Span := o.firstBelow maxDepth

end Outline

/-- A part of a pattern, with what it means. -/
structure Piece where
  /-- How its parts lie within each other. -/
  outline : Outline
  /-- What it matches. -/
  expression : Expression
  /-- Whether it can be repeated. -/
  repeatable : Bool

end Folio.Pattern
