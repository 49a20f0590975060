import Folio.Calendar.Universal
import Folio.Codecs
import Folio.CommandLine.Filter
import Folio.Fixture.Build

/-!
# The command line

The program writes the usual fixture into the working directory and tells of its progress on the
error channel. A user may ask for a filter of these lines. What is wrong with the filter is told
first, and a failure is told in any case.

## Main definitions

* `filterVariable` — where a user asks for a filter
* `buildOrigin`, `summaryOrigin` — the sections of the program that tell of progress
* `warningLines` — the lines that tell what is wrong with a filter
* `run` — what the program does
* `failureReport` — the lines that tell of a failure
-/

namespace Folio.CommandLine

open Folio.Fixture

/-! ### Lines -/

/-- The section of the program that builds the fixture. -/
def buildOrigin : String := "king_lear_zip::fixture"

/-- The section of the program that sums up. -/
def summaryOrigin : String := "generate_king_lear_zip"

/-- The variable of the environment in which a user asks for a filter. -/
def filterVariable : String := "RUST_LOG"

/-- What counts if a user asks for nothing: progress appears. -/
def usualRequest : String := "info"

/-- The lines that tell what is wrong with a filter. -/
def warningLines (fault : FilterFault) : List String :=
  s!"warning: {fault.message}, ignoring it".splitOn "\n"

/-! ### The program -/

/-- What a program run leaves behind. -/
structure Run where
  exitCode : Nat
  /-- The lines on the error channel. -/
  errors : List String
  tree : FileTree

/-- The lines for a list of causes. They are numbered if there is more than one. -/
def causeLines (causes : List String) : List String :=
  match causes with
  | [] => []
  | [cause] => ["", "Caused by:", "    " ++ cause]
  | causes => "" :: "Caused by:" :: causes.zipIdx.map fun (cause, i) => s!"    {i}: {cause}"

/-- The lines that tell of a failure, with all that lies behind it. -/
def failureReport (output : String) (error : FixtureError) : List String :=
  s!"Error: failed to generate {output}" :: causeLines (error.message :: error.cause?.toList)

/-- The line that tells of success. -/
def successLine (s : Summary) : String :=
  s!"wrote {s.entries} entries ({s.size} bytes) to {s.output}"

/-- Writes the usual fixture into a tree, with the filter that a user asks for, if any. -/
def run (t : FileTree) (request : Option String) : Run :=
  let (filter, faults) := LogFilter.parse (request.getD usualRequest)
  let outcome := build t .usual
  let front := faults.flatMap warningLines
    ++ (outcome.log.map Progress.text).filter (filter.shows buildOrigin .info)
  match outcome.result with
  | .ok summary =>
    ⟨0, front ++ [successLine summary].filter (filter.shows summaryOrigin .info), outcome.tree⟩
  | .error error => ⟨1, front ++ failureReport Config.usual.output error, outcome.tree⟩

end Folio.CommandLine
