import Folio.Pattern.Basic

/-!
# Which lines appear

The lines about progress come from sections of the program, and each has a level. A user says which
of them appear: for all sections or for those whose names start in some way, the least important
level, and for all lines a pattern.

## Main definitions

* `LogLevel` — how important a line is
* `LogRule` — which lines of some sections appear
* `LogFilter` — which lines appear
* `LogFilter.parse` — the filter that a text describes
* `LogFilter.shows` — whether a line appears
* `FilterFault` — what is wrong with a part of the text, which then does not count
-/

namespace Folio.CommandLine

/-! ### Levels -/

/-- How important a line is, from the most important on. -/
inductive LogLevel where
  /-- A failure. -/
  | error
  /-- Something that may be wrong. -/
  | warn
  /-- Progress. -/
  | info
  /-- What helps to find mistakes. -/
  | debug
  /-- All there is to tell. -/
  | trace
deriving DecidableEq, Repr

/-- The place of a level among all levels. -/
def LogLevel.rank : LogLevel → Nat
  | error => 1
  | warn => 2
  | info => 3
  | debug => 4
  | trace => 5

/-- The least important lines that appear, or none at all. -/
structure LogBound where
  /-- The level of these lines. -/
  least : Option LogLevel
deriving DecidableEq, Repr

/-- Whether lines of a level appear. -/
def LogBound.allows (b : LogBound) (level : LogLevel) : Bool :=
  b.least.any fun least => level.rank ≤ least.rank

/-- The bound that a word names, whatever the case of its letters. -/
def LogBound.ofWord? (word : String) : Option LogBound :=
  match word.toLower with
  | "off" => some ⟨none⟩
  | "error" => some ⟨some .error⟩
  | "warn" => some ⟨some .warn⟩
  | "info" => some ⟨some .info⟩
  | "debug" => some ⟨some .debug⟩
  | "trace" => some ⟨some .trace⟩
  | _ => none

/-! ### Rules -/

/-- Which lines of some sections appear. -/
structure LogRule where
  /-- The start of the names of these sections, or `none` for all of them. -/
  name : Option String
  /-- The lines that appear. -/
  bound : LogBound
deriving DecidableEq, Repr

namespace LogRule

/-- Whether a rule is about a section. -/
def covers (r : LogRule) (origin : String) : Bool := r.name.all fun name => origin.startsWith name

/-- How closely a rule says which sections it is about. -/
def reach (r : LogRule) : Nat := (r.name.map String.utf8ByteSize).getD 0

end LogRule

/-- What is wrong with a part of a filter's text. -/
inductive FilterFault where
  /-- There is more than one slash. -/
  | manySlashes (text : String)
  /-- A part is no rule, or a word in it is no level. -/
  | notUnderstood (part : String)
  /-- There is no pattern behind the slash. -/
  | pattern (refusal : Pattern.Refusal)
deriving DecidableEq, Repr

/-- The wording of what is wrong with a part of a filter's text. -/
def FilterFault.message : FilterFault → String
  | manySlashes text => s!"invalid logging spec '{text}' (too many '/'s)"
  | notUnderstood part => s!"invalid logging spec '{part}'"
  | pattern refusal => s!"invalid regex filter - {refusal.message}"

/-- The rule that a part of a filter's text stands for: a level for all sections, the name of some,
or such a name and a level. All lines of a section without a level appear. -/
def LogRule.parse (part : String) : Except FilterFault LogRule :=
  match part.splitOn "=" with
  | [word] =>
    match LogBound.ofWord? word with
    | some bound => .ok ⟨none, bound⟩
    | none => .ok ⟨some word, ⟨some .trace⟩⟩
  | [name, word] =>
    let word := Text.trimBlanks word
    if word = "" then .ok ⟨some name, ⟨some .trace⟩⟩
    else
      match LogBound.ofWord? word with
      | some bound => .ok ⟨some name, bound⟩
      | none => .error (.notUnderstood word)
  | _ => .error (.notUnderstood part)

/-! ### Filters -/

/-- Which lines appear. -/
structure LogFilter where
  /-- The rules, at most one for each name. -/
  rules : List LogRule
  /-- What all lines have to match. -/
  pattern : Option Pattern

namespace LogFilter

/-- The filter that shows failures only. -/
def usual : LogFilter := ⟨[], none⟩

/-- Rules with a further one, which takes the place of a rule for the same name. -/
def addRule (rules : List LogRule) (rule : LogRule) : List LogRule :=
  if rules.any (·.name = rule.name) then
    rules.map fun other => if other.name = rule.name then rule else other
  else rules ++ [rule]

/-- The rule for a section: of all rules about it the one with the longest name, and the later of
two such rules. -/
def ruleFor? (f : LogFilter) (origin : String) : Option LogRule :=
  (f.rules.filter (·.covers origin)).foldl (fun best rule =>
    match best with
    | none => some rule
    | some best => if best.reach ≤ rule.reach then some rule else some best) none

/-- The lines that appear of a section. Without any rules, failures appear. -/
def boundFor (f : LogFilter) (origin : String) : LogBound :=
  if f.rules.isEmpty then ⟨some .error⟩
  else ((f.ruleFor? origin).map LogRule.bound).getD ⟨none⟩

/-- Whether a line of a section appears. -/
def shows (f : LogFilter) (origin : String) (level : LogLevel) (line : String) : Bool :=
  (f.boundFor origin).allows level && f.pattern.all (·.isMatch line)

/-- The rules that stand between commas, and what is wrong with the others. -/
def parseRules (text : String) : List LogRule × List FilterFault :=
  let parts := ((text.splitOn ",").map Text.trimBlanks).filter (· ≠ "")
  parts.foldl (fun (rules, faults) part =>
    match LogRule.parse part with
    | .ok rule => (addRule rules rule, faults)
    | .error fault => (rules, faults ++ [fault])) ([], [])

/-- The filter that a text describes, and what is wrong with the parts that do not count. Rules
stand between commas, and behind a slash stands a pattern. -/
def parse (text : String) : LogFilter × List FilterFault :=
  match text.splitOn "/" with
  | [] => (usual, [])
  | [rules] =>
    let (rules, faults) := parseRules rules
    (⟨rules, none⟩, faults)
  | [rules, pattern] =>
    let (rules, faults) := parseRules rules
    match Pattern.compile pattern with
    | .ok pattern => (⟨rules, some pattern⟩, faults)
    | .error refusal => (⟨rules, none⟩, faults ++ [.pattern refusal])
  | _ => (usual, [.manySlashes text])

end LogFilter

end Folio.CommandLine
