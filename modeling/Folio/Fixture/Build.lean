import Folio.Fixture.Error
import Folio.Fixture.Plan
import Folio.Writer.Disk

/-!
# Building fixtures

The document is read once, and the archive gets its entries in the order of the plan. It appears at
its place when it is complete. On a failure nothing is left behind.

## Main definitions

* `Progress` — a line that tells how far the building is
* `addEntries` — adds the entries of a plan, with the lines that tell of it
* `build` — builds the fixture
-/

namespace Folio.Fixture

/-- A line that tells how far the building is. -/
inductive Progress where
  /-- A repetition begins. -/
  | repetition (index : Nat)
  /-- An entry has been added. -/
  | added (method : Method)
deriving DecidableEq, Repr

/-- The text of a line. -/
def Progress.text : Progress → String
  | repetition index => s!"i={index}"
  | added method => method.label

/-- The options of an entry, with the document's time of modification unless they have one. -/
def PlannedEntry.optionsAt (e : PlannedEntry) (modified : DosTime) : EntryOptions :=
  { e.options with modified := some (e.options.modified.getD modified) }

/-- The line before an entry, if it begins a repetition. -/
def Progress.before (previous : Option Nat) (e : PlannedEntry) : List Progress :=
  if previous = some e.index then [] else [repetition e.index]

/-- Adds the entries of a plan, and stops where one of them fails. `previous` is the repetition of the
entry before them, and `log` holds the lines so far, the last one first. -/
def addEntries {σ : Type} [Sink σ] [Codec] (document : ByteArray) (modified : DosTime) :
    (entries : List PlannedEntry) → (previous : Option Nat) → (log : List Progress) →
      Writer σ → (Except Error Unit × Writer σ) × List Progress
  | [], _, log, w => ((.ok (), w), log.reverse)
  | e :: rest, previous, log, w =>
    let log := Progress.before previous e ++ log
    match w.add e.name document (e.optionsAt modified) with
    | (.error error, w) => ((.error error, w), log.reverse)
    | (.ok (), w) =>
      addEntries document modified rest (some e.index) (.added e.options.method :: log) w

/-- What a user is told about a fixture that has been built. -/
structure Summary where
  /-- Where the archive is. -/
  output : String
  /-- The number of its entries. -/
  entries : Nat
  size : Nat
deriving DecidableEq, Repr

/-- The result of building a fixture, the lines that told of it, and the tree afterwards. -/
structure Outcome where
  /-- The summary, or what went wrong. -/
  result : Except FixtureError Summary
  /-- The lines. -/
  log : List Progress
  tree : FileTree

/-- Puts the archive in its place and sums up. -/
def complete (t : FileTree) (c : Config) (w : Writer PendingFile) (log : List Progress) :
    Outcome :=
  match w.persist t with
  | .error error => ⟨.error (.archive error), log, t⟩
  | .ok after =>
    match after.file c.output with
    | .error fault => ⟨.error (.io fault), log, after⟩
    | .ok file => ⟨.ok ⟨c.output, w.size, file.contents.size⟩, log, after⟩

/-- Builds the fixture. -/
def build [Codec] [LocalTime] (t : FileTree) (c : Config) : Outcome :=
  match c.source.load t with
  | .error fault => ⟨.error (.sourceRead c.source.path fault), [], t⟩
  | .ok document =>
    match Writer.create t c.output with
    | .error error => ⟨.error (.archive error), [], t⟩
    | .ok w =>
      match addEntries document.contents (.ofTimestamp document.modified) (plan c) none [] w with
      | ((.error error, _), log) => ⟨.error (.archive error), log, t⟩
      | ((.ok (), w), log) => complete t c w log

end Folio.Fixture
