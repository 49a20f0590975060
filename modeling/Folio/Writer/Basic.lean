import Std.Data.HashSet
import Folio.Checksum.Crc32
import Folio.Entry.Name
import Folio.Entry.Options
import Folio.Payload
import Folio.Record.CentralHeader
import Folio.Record.EndRecord
import Folio.Record.LocalHeader
import Folio.Writer.Sink

/-!
# Writing archives

A writer puts every entry into its sink as it is added, and keeps the central headers for the end.
All that can be wrong with an entry is found out before a byte is written, so a failure leaves the
writer as it was, unless it is the sink that fails. After that a part of a record may stand in the
sink, and the writer refuses to go on.

## Main definitions

* `Writer` — a sink with the entries written to it so far
* `Writer.prepare` — the records of an entry, or what is wrong with it
* `Writer.add` — adds an entry
* `Writer.finish` — writes the central directory and the end record
-/

namespace Folio

/-- A sink with the entries written to it so far. -/
structure Writer (σ : Type) where
  sink : σ
  /-- The number of bytes written, which is the offset of the next record. -/
  offset : Nat
  /-- The central headers of the entries. -/
  directory : Array CentralHeader
  /-- The names of the entries. -/
  names : Std.HashSet String
  /-- Whether the sink has failed. -/
  broken : Bool

/-- An entry that is ready to be written. -/
structure PreparedEntry where
  name : String
  /-- The header in front of its payload. -/
  header : LocalHeader
  payload : ByteArray
  /-- The attributes of a Unix file. -/
  attributes : UInt32

namespace Writer

variable {σ : Type}

/-- The most entries of an archive. One more would be the marker for 64-bit fields. -/
def maxEntries : Nat := 65534

/-- One more than the greatest value of a 32-bit field. -/
def fieldLimit : Nat := 0x100000000

/-- The system that a central header names, which is Unix. -/
def unixHost : UInt16 := 3

/-- The type of a regular file in the mode of a Unix file. -/
def regularFile : UInt32 := 0o100000

/-- A writer without entries. -/
def start (sink : σ) : Writer σ := ⟨sink, 0, #[], ∅, false⟩

/-- The number of entries. -/
def size (w : Writer σ) : Nat := w.directory.size

/-- The bytes of a payload and the header in front of it, from its name and the data. -/
def describe (name : String) (data payload : ByteArray) (options : EntryOptions) :
    PreparedEntry where
  name := name
  header :=
    { versionNeeded := options.method.versionNeeded
      flags := EntryName.flags name
      method := options.method.id
      modified := options.modified.getD .epoch
      crc := crc32 data
      compressedSize := UInt32.ofNat payload.size
      uncompressedSize := UInt32.ofNat data.size
      name := name.toUTF8.data.toList
      extra := [] }
  payload := payload
  attributes := (regularFile ||| options.permissions) <<< 16

/-- The records of an entry, or what is wrong with it. -/
def prepare [Codec] (w : Writer σ) (name : String) (data : ByteArray) (options : EntryOptions) :
    Except Error PreparedEntry := do
  if w.broken then throw .brokenWriter
  let name ← EntryName.normalize name
  if w.names.contains name then throw (.duplicateEntry name)
  if maxEntries ≤ w.size then throw (.capacity .entries)
  if fieldLimit ≤ w.offset then throw (.capacity (.entryOffset name))
  if fieldLimit ≤ data.size then throw (.capacity (.dataSize name))
  let payload ← compress options.method options.level data
  if fieldLimit ≤ payload.size then throw (.capacity (.payloadSize name))
  return describe name data payload options

end Writer

/-- The central header of an entry that is written at the given offset. -/
def PreparedEntry.centralHeader (e : PreparedEntry) (offset : Nat) : CentralHeader :=
  { e.header.toEntryFields with
    versionMadeBy := Writer.unixHost <<< 8 ||| e.header.versionNeeded
    diskNumber := 0
    internalAttributes := 0
    externalAttributes := e.attributes
    localHeaderOffset := UInt32.ofNat offset
    name := e.header.name
    extra := []
    comment := [] }

namespace Writer

variable {σ : Type}

/-- The writer after an entry has been written. -/
def record (w : Writer σ) (e : PreparedEntry) (sink : σ) : Writer σ :=
  { sink
    offset := w.offset + e.header.encodedSize + e.payload.size
    directory := w.directory.push (e.centralHeader w.offset)
    names := w.names.insert e.name
    broken := w.broken }

variable [Sink σ]

/-- Writes an entry to the sink. -/
def append (w : Writer σ) (e : PreparedEntry) : Except Error Unit × Writer σ :=
  match Sink.write w.sink e.header.encode.toByteArray with
  | (.error fault, sink) => (.error (.io fault), { w with sink, broken := true })
  | (.ok (), sink) =>
    match Sink.write sink e.payload with
    | (.error fault, sink) => (.error (.io fault), { w with sink, broken := true })
    | (.ok (), sink) => (.ok (), w.record e sink)

/-- Adds an entry. -/
def add [Codec] (w : Writer σ) (name : String) (data : ByteArray) (options : EntryOptions) :
    Except Error Unit × Writer σ :=
  match w.prepare name data options with
  | .error error => (.error error, w)
  | .ok entry => w.append entry

/-- The bytes of the central directory. -/
def directoryBytes (directory : Array CentralHeader) : ByteArray :=
  directory.foldl (fun bytes header => bytes ++ header.encode.toByteArray) .empty

/-- Writes the given records to the sink, one after another, and flushes it. -/
def close (sink : σ) : (records : List ByteArray) → Except Error Unit × σ
  | [] =>
    match Sink.flush sink with
    | (.error fault, sink) => (.error (.io fault), sink)
    | (.ok (), sink) => (.ok (), sink)
  | bytes :: rest =>
    match Sink.write sink bytes with
    | (.error fault, sink) => (.error (.io fault), sink)
    | (.ok (), sink) => close sink rest

/-- Writes the central directory and the end record, and gives the sink back. -/
def finish (w : Writer σ) : Except Error Unit × σ :=
  if w.broken then (.error .brokenWriter, w.sink)
  else if fieldLimit ≤ w.offset then (.error (.capacity .directoryOffset), w.sink)
  else
    let directory := directoryBytes w.directory
    if fieldLimit ≤ directory.size then (.error (.capacity .directorySize), w.sink)
    else
      let record := EndRecord.singleDisk (UInt16.ofNat w.size) (UInt32.ofNat directory.size)
        (UInt32.ofNat w.offset)
      close w.sink [directory, record.encode.toByteArray]

end Writer

end Folio
