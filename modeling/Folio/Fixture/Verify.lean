import Folio.Archive.Read
import Folio.Fixture.Error
import Folio.Fixture.Plan

/-!
# Verifying fixtures

An archive is a fixture if its entries are those of the plan, in order, and each of them holds the
document.

## Main definitions

* `checkEntry` — checks one entry
* `verify` — checks the archive
-/

namespace Folio.Fixture

/-- Checks the entry with an index against the plan and the document. -/
def checkEntry [Codec] (a : Archive) (document : ByteArray) (index : Nat) (e : Entry)
    (planned : PlannedEntry) : Except FixtureError Unit := do
  if e.name ≠ planned.name then throw (.mismatch (.entryName index e.name planned.name))
  match e.method with
  | .error error => throw (.archive error)
  | .ok method =>
    if method ≠ planned.options.method then
      throw (.mismatch (.method e.name method planned.options.method))
    if method = .stored ∧ e.compressedSize ≠ e.uncompressedSize then
      throw (.mismatch (.storedSize e.name e.uncompressedSize e.compressedSize))
    match a.readEntry e with
    | .error error => throw (.archive error)
    | .ok data => if data != document then throw (.mismatch (.contents e.name))

/-- Checks entries against a plan, from an index on. -/
def checkEntries [Codec] (a : Archive) (document : ByteArray) :
    (index : Nat) → List Entry → List PlannedEntry → Except FixtureError Unit
  | index, e :: entries, planned :: plan => do
    checkEntry a document index e planned
    checkEntries a document (index + 1) entries plan
  | _, _, _ => .ok ()

/-- Checks that the archive is the fixture of a configuration. -/
def verify [Codec] (t : FileTree) (c : Config) : Except FixtureError Unit :=
  match c.source.load t with
  | .error fault => .error (.sourceRead c.source.path fault)
  | .ok document =>
    match t.read c.output with
    | .error fault => .error (.archive (.io fault))
    | .ok bytes =>
      match Archive.ofBytes bytes with
      | .error error => .error (.archive error)
      | .ok archive =>
        let plan := plan c
        if archive.size ≠ plan.length then
          .error (.mismatch (.entryCount plan.length archive.size))
        else checkEntries archive document.contents 0 archive.entries.toList plan

end Folio.Fixture
