import Folio.FileTree.PendingFile
import Folio.Writer.Basic

/-!
# Archives on disk

A writer whose sink is a pending file makes an archive that appears at its destination when it is
complete.

## Main definitions

* `Writer.create` — begins an archive for a destination
* `Writer.addFile` — adds an entry with the contents of a file
* `Writer.persist` — finishes the archive and puts it in its place
-/

namespace Folio.Writer

/-- Begins an archive that is to appear at a destination. -/
def create (t : FileTree) (destination : String) : Except Error (Writer PendingFile) :=
  match PendingFile.create t destination with
  | .ok file => .ok (start file)
  | .error fault => .error (.io fault)

/-- Adds an entry with the contents of a file. Unless the options say otherwise it has the file's
time of modification. -/
def addFile {σ : Type} [Sink σ] [Codec] [LocalTime] (t : FileTree) (w : Writer σ)
    (name path : String) (options : EntryOptions) : Except Error Unit × Writer σ :=
  match t.file path with
  | .error fault => (.error (.io fault), w)
  | .ok file =>
    w.add name file.contents
      { options with modified := some (options.modified.getD (.ofTimestamp file.modified)) }

/-- Finishes the archive and puts it in its place. -/
def persist (w : Writer PendingFile) (t : FileTree) : Except Error FileTree :=
  match w.finish with
  | (.error error, _) => .error error
  | (.ok (), file) =>
    match file.persist t with
    | .ok t => .ok t
    | .error fault => .error (.io fault)

end Folio.Writer
