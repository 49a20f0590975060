import Folio.Error

/-!
# What can go wrong with a fixture

## Main definitions

* `Mismatch` — how an archive differs from the plan of a fixture
* `FixtureError` — a failure to build or to verify a fixture
* `FixtureError.message`, `FixtureError.cause?` — the wording, and that of what lies behind it
-/

namespace Folio.Fixture

/-- How an archive differs from the plan of a fixture. -/
inductive Mismatch where
  /-- The number of entries differs. -/
  | entryCount (expected found : Nat)
  /-- The name of an entry differs. -/
  | entryName (index : Nat) (found expected : String)
  /-- The method of an entry differs. -/
  | method (name : String) (found expected : Method)
  /-- The payload of a stored entry has another size than the data. -/
  | storedSize (name : String) (dataSize payloadSize : Nat)
  /-- The data of an entry differs. -/
  | contents (name : String)
deriving DecidableEq, Repr

/-- The wording of how an archive differs from the plan. -/
def Mismatch.message : Mismatch → String
  | entryCount expected found => s!"expected {expected} entries, found {found}"
  | entryName index found expected => s!"entry {index} is {found}, expected {expected}"
  | method name found expected => s!"{name} uses {found.label}, expected {expected.label}"
  | storedSize name dataSize payloadSize =>
    s!"{name} is stored but {dataSize} bytes became {payloadSize}"
  | contents name => s!"{name} does not match the source document"

/-- A failure to build or to verify a fixture. -/
inductive FixtureError where
  /-- The document cannot be read. -/
  | sourceRead (path : String) (cause : IoError)
  /-- The archive cannot be written or read. -/
  | archive (error : Error)
  /-- The file system fails otherwise. -/
  | io (cause : IoError)
  /-- The archive differs from the plan. -/
  | mismatch (mismatch : Mismatch)
deriving DecidableEq, Repr

namespace FixtureError

/-- The wording of a failure. -/
def message : FixtureError → String
  | sourceRead path _ => s!"failed to read source document {path}"
  | archive error => error.message
  | io cause => "I/O error: " ++ cause.message
  | mismatch m => "fixture mismatch: " ++ m.message

/-- The wording of what lies behind a failure. -/
def cause? : FixtureError → Option String
  | sourceRead _ cause => some cause.message
  | archive (.io cause) => some cause.message
  | io cause => some cause.message
  | _ => none

end FixtureError

end Folio.Fixture
