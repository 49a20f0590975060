import Folio.Pattern.Parse

/-!
# Patterns

A pattern is a regular expression that can be searched for in a text. It is compiled from what a
user writes, unless that is wrong or asks for too much.

## Main definitions

* `Pattern` — a pattern
* `Pattern.compile` — the pattern that a text stands for
* `Pattern.isMatch` — whether a text has a part that a pattern matches
* `Pattern.Refusal` — why a text stands for no pattern
-/

namespace Folio

/-- A pattern. -/
structure Pattern where
  /-- What it matches. -/
  expression : Pattern.Expression
deriving Repr

namespace Pattern

/-- Why a text stands for no pattern. -/
inductive Refusal where
  /-- It is no regular expression. -/
  | malformed (text : String) (fault : Fault)
  /-- The expression is too large when its repetitions are written out. -/
  | tooLarge
  /-- The expression asks for a table of what words are made of. -/
  | wordTableMissing
deriving DecidableEq, Repr

/-- The number of bytes that a pattern may take. -/
def sizeLimit : Nat := 10485760

/-- The number of bytes of a step of a pattern. -/
def stepSize : Nat := 32

/-- The wording of a refusal. -/
def Refusal.message : Refusal → String
  | malformed text fault => fault.report text
  | tooLarge => s!"Compiled regex exceeds size limit of {sizeLimit} bytes."
  | wordTableMissing => "error building NFA"

/-- The pattern that a text stands for. -/
def compile (text : String) : Except Refusal Pattern :=
  match parse text with
  | .error fault => .error (.malformed text fault)
  | .ok expression =>
    if sizeLimit < stepSize * expression.weight then .error .tooLarge
    else if expression.needsWordTable then .error .wordTableMissing
    else .ok ⟨expression⟩

/-- Whether a text has a part that a pattern matches. -/
def isMatch (p : Pattern) (text : String) : Bool := p.expression.isMatch text

end Pattern

end Folio
