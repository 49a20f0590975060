import Folio.FileTree.Basic
import Folio.Writer.Sink

/-!
# Files that appear at once

Output that is to replace a file is collected aside, and takes the place of the file in one step
when it is complete. Until then, and if it never is, nothing changes.

## Main definitions

* `PendingFile` — output on its way to a destination
* `PendingFile.written` — what has been written aside
* `PendingFile.directory` — where it is collected, if the directory of the destination is there
* `PendingFile.create` — begins
* `PendingFile.persist` — puts the output in its place
-/

namespace Folio

/-- Output on its way to a destination. Small pieces are gathered in a buffer. -/
structure PendingFile where
  /-- Where the output is to appear. -/
  destination : String
  /-- What has been written aside, in pieces. The last piece comes first. -/
  pieces : List ByteArray
  /-- What is still in the buffer. -/
  buffer : ByteArray

namespace PendingFile

/-- The number of bytes that the buffer holds. -/
def bufferSize : Nat := 8192

/-- The number of bytes that the name of the file aside adds to its directory. -/
def asideSize : Nat := 24

/-- Components without those at the end that lead nowhere. -/
def trimmed (components : List String) : List String :=
  (components.reverse.dropWhile FileTree.staysPut).reverse

/-- The components of the directory in which a text puts its last component. -/
def parent (text : String) : List String :=
  trimmed (trimmed (FileTree.components text)).dropLast

/-- The directory in which output for a destination is collected, which has to be there. -/
def directory (t : FileTree) (destination : String) : Except IoError Path := do
  let components := parent destination
  let text := "/".intercalate components
  if FileTree.holdsZero text then throw .zeroInPath
  if FileTree.pathLimit ≤ text.utf8ByteSize + asideSize then throw .nameTooLong
  let path ← t.followFrom [] components
  match t.find? path with
  | some .directory => return path
  | some (.file _) => throw .notADirectory
  | none => throw .notFound

/-- Begins output for a destination. -/
def create (t : FileTree) (destination : String) : Except IoError PendingFile :=
  match directory t destination with
  | .ok _ => .ok ⟨destination, [], .empty⟩
  | .error fault => .error fault

/-- What has been written aside. -/
def written (p : PendingFile) : ByteArray :=
  p.pieces.foldr (fun piece bytes => bytes ++ piece)
    (.emptyWithCapacity (p.pieces.foldl (fun size piece => size + piece.size) 0))

/-- Writes out what is in the buffer. -/
def flushBuffer (p : PendingFile) : PendingFile :=
  { p with pieces := p.buffer :: p.pieces, buffer := .empty }

/-- Puts bytes behind those in the buffer, which is written out first if they do not fit. Bytes that
would fill it go past it. -/
def write (p : PendingFile) (bytes : ByteArray) : PendingFile :=
  let p := if bufferSize < p.buffer.size + bytes.size then p.flushBuffer else p
  if bufferSize ≤ bytes.size then { p with pieces := bytes :: p.pieces }
  else { p with buffer := p.buffer ++ bytes }

instance : Sink PendingFile where
  write p bytes := (.ok (), p.write bytes)
  flush p := (.ok (), p.flushBuffer)

/-- The time of modification of output, which this library does not keep. -/
def now : Timestamp := ⟨0, 0⟩

/-- The file that the output makes. -/
def file (p : PendingFile) : File := ⟨p.flushBuffer.written, now, FileTree.fileMode⟩

/-- The tree with the output in its place. -/
def persist (p : PendingFile) (t : FileTree) : Except IoError FileTree :=
  t.place p.destination p.file

end PendingFile

end Folio
