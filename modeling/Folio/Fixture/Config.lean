import Folio.Entry.Options
import Folio.FileTree.Basic
import Folio.Fixture.KingLear

/-!
# What a fixture is made from

A fixture repeats one document in an archive, once for every method in every repetition.

## Main definitions

* `Source` — where the document comes from
* `Config` — source, output, repetitions and methods
* `Config.usual` — the configuration of the command line
-/

namespace Folio.Fixture

/-- Where the document comes from. -/
inductive Source where
  /-- The document that this library brings. -/
  | bundled
  | file (path : String)
deriving DecidableEq, Repr

/-- The path under which the bundled document is known. -/
def bundledPath : String := "tests/data/folder/king-lear.txt"

/-- The path of a source, for messages. -/
def Source.path : Source → String
  | bundled => bundledPath
  | file path => path

/-- The file of the bundled document. -/
def bundledFile : File := ⟨kingLear.toUTF8, ⟨0, 0⟩, FileTree.fileMode⟩

/-- The file of a source. -/
def Source.load (t : FileTree) : Source → Except IoError File
  | bundled => .ok bundledFile
  | file path => t.file path

/-- What a fixture is made from. -/
structure Config where
  /-- The document. -/
  source : Source
  /-- The archive. -/
  output : String
  /-- The number of repetitions. -/
  iterations : Nat
  /-- The methods of each repetition. -/
  methods : List EntryOptions
deriving DecidableEq, Repr

/-- The level at which the usual configuration compresses. -/
def maxLevel : UInt32 := 9

/-- The configuration of the command line. -/
def Config.usual : Config where
  source := .bundled
  output := "out.zip"
  iterations := 50
  methods := [.ofMethod .stored, { EntryOptions.ofMethod .deflated with level := some maxLevel },
    { EntryOptions.ofMethod .bzip2 with level := some maxLevel }]

end Folio.Fixture
