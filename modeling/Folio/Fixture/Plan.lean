import Folio.Fixture.Config

/-!
# Plans

The entries of a fixture, in order.

## Main definitions

* `PlannedEntry` — an entry of a fixture
* `entryName` — its name
* `plan` — all entries of a fixture
-/

namespace Folio.Fixture

/-- An entry of a fixture. -/
structure PlannedEntry where
  /-- The repetition, from zero. -/
  index : Nat
  name : String
  /-- The options of the method. -/
  options : EntryOptions
deriving DecidableEq, Repr

/-- The name of the entry for a method in a repetition. -/
def entryName (method : Method) (index : Nat) : String := s!"{method.label}-n{index}.txt"

/-- The entry for a method in a repetition. -/
def PlannedEntry.of (index : Nat) (options : EntryOptions) : PlannedEntry :=
  ⟨index, entryName options.method index, options⟩

/-- The entries of a fixture: in every repetition one for every method. -/
def plan (c : Config) : List PlannedEntry :=
  (List.range c.iterations).flatMap fun index => c.methods.map (PlannedEntry.of index)

end Folio.Fixture
