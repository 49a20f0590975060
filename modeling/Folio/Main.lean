import Folio.CommandLine

/-!
# The program

Runs the command line in the working directory. All that is decided is decided by
`CommandLine.run`, which sees the working directory as a tree with at most one node. The archive is
written aside and then moved to its place, so that it appears at once.

## Main definitions

* `workingTree` — what the program sees of the working directory
* `replaceFile` — puts bytes in the place of a file
* `main` — the program
-/

namespace Folio.CommandLine

open Folio.Fixture

/-- What stands in the working directory where the archive is to appear. -/
def workingTree : IO FileTree := do
  let place := Config.usual.output
  match ← (IO.FS.readBinFile place).toBaseIO with
  | .ok bytes => return FileTree.empty.insert [place] (.file ⟨bytes, ⟨0, 0⟩, FileTree.fileMode⟩)
  | .error (.inappropriateType ..) => return FileTree.empty.insert [place] .directory
  | .error _ => return .empty

/-- The access rights of a file that its owner may write and all may read. -/
def archiveRights : IO.FileRight where
  user := { read := true, write := true }
  group := { read := true }
  other := { read := true }

/-- Puts bytes in the place of a file in one step. -/
def replaceFile (place : String) (bytes : ByteArray) : IO Unit := do
  let aside := ".folio-" ++ place ++ ".tmp"
  try
    IO.FS.writeBinFile aside bytes
    IO.setAccessRights aside archiveRights
    IO.FS.rename aside place
  catch fault =>
    let _ ← (IO.FS.removeFile aside).toBaseIO
    throw fault

end Folio.CommandLine

/-- Writes the fixture into the working directory. The environment says which lines appear. -/
def main : IO UInt32 := do
  let request ← IO.getEnv Folio.CommandLine.filterVariable
  let run := Folio.CommandLine.run (← Folio.CommandLine.workingTree) request
  if run.exitCode = 0 then
    let place := Folio.Fixture.Config.usual.output
    match run.tree.read place with
    | .ok bytes => Folio.CommandLine.replaceFile place bytes
    | .error _ => pure ()
  run.errors.forM IO.eprintln
  return UInt32.ofNat run.exitCode
