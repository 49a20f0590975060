import Folio.Method
import Folio.Text.Quoted

/-!
# What can go wrong with an archive

Every failure of the library is a value that says what was found wrong. The wording for a user
is a function on these values.

## Main definitions

* `IoError` — a failure of a file system or of a sink
* `FormatError` — why a string of bytes is not an archive that can be read
* `StreamFault` — why a compressed stream cannot be decoded
* `NameFault`, `CapacityFault` — why an entry cannot be written
* `Error` — any of these, and the failures that stand on their own
* `Error.message` — the wording
* `Error.isCorruption` — whether the failure says that the archive is damaged
-/

namespace Folio

/-- A failure of a file system or of a sink for bytes. -/
inductive IoError where
  /-- A path leads nowhere. -/
  | notFound
  /-- A path leads through something that is not a directory. -/
  | notADirectory
  /-- A directory stands where a file is needed. -/
  | isADirectory
  /-- A path names a directory by a dot where a name is needed. -/
  | busy
  /-- A path, or a name in it, is too long. -/
  | nameTooLong
  /-- A zero byte in a path would end it. -/
  | zeroInPath
  /-- A path cannot be handed to the file system. -/
  | invalidArgument
  /-- The bytes end before what is to be read is complete. -/
  | unexpectedEnd
  /-- The sink takes no more bytes. -/
  | nothingWritten
  /-- Any other failure, with its description. -/
  | other (description : String)
deriving DecidableEq, Repr, Inhabited

/-- The wording of a failure of a file system or of a sink. -/
def IoError.message : IoError → String
  | notFound => "No such file or directory (os error 2)"
  | notADirectory => "Not a directory (os error 20)"
  | isADirectory => "Is a directory (os error 21)"
  | busy => "Device or resource busy (os error 16)"
  | nameTooLong => "File name too long (os error 36)"
  | zeroInPath => "file name contained an unexpected NUL byte"
  | invalidArgument => "Invalid argument (os error 22)"
  | unexpectedEnd => "failed to fill whole buffer"
  | nothingWritten => "failed to write whole buffer"
  | other description => description

/-- Why a string of bytes is not an archive that can be read. -/
inductive FormatError where
  /-- A local header does not start with its signature. -/
  | localSignature (found : UInt32)
  /-- A central header does not start with its signature. -/
  | centralSignature (found : UInt32)
  /-- An end record does not start with its signature. -/
  | endSignature
  /-- The bytes are too few for an end record. -/
  | tooSmall (size : Nat)
  /-- No end record reaches to the end of the bytes. -/
  | noEndRecord
  /-- The archive is spread over several disks. -/
  | multiDisk
  /-- The end record holds a marker for 64-bit fields. -/
  | zip64
  /-- The two counts of entries differ. -/
  | entryCounts (onDisk total : UInt16)
  /-- The central directory reaches into the end record. -/
  | directoryOverlap (size offset endOffset : Nat)
  /-- A central header holds a marker for 64-bit fields. -/
  | entryZip64 (name : String)
  /-- The entry is encrypted. -/
  | encrypted (name : String)
  /-- The two headers of an entry name different methods. -/
  | methodMismatch (name : String) (inLocal inCentral : UInt16)
  /-- The payload of an entry reaches into the central directory. -/
  | pastDirectory (name : String) (size offset directoryOffset : Nat)
deriving DecidableEq, Repr

/-- The wording of what is wrong with the bytes of an archive. -/
def FormatError.message : FormatError → String
  | localSignature found =>
    "Invalid local file header signature 0x" ++ (Text.paddedHex 8 found.toNat).toUpper
  | centralSignature found =>
    "Invalid central directory header signature 0x" ++ (Text.paddedHex 8 found.toNat).toUpper
  | endSignature => "Invalid end of central directory signature"
  | tooSmall size => s!"File of {size} bytes is too small to be a zip archive"
  | noEndRecord => "Could not find end of central directory record"
  | multiDisk => "Multi-disk archives are not supported"
  | zip64 => "Zip64 archives are not supported"
  | entryCounts onDisk total => s!"Entry count mismatch: {onDisk} on disk, {total} total"
  | directoryOverlap size offset endOffset =>
    s!"Central directory ({size} bytes at {offset}) overlaps the end record at {endOffset}"
  | entryZip64 name => s!"Entry {name} uses zip64 sizes or offsets, which are not supported"
  | encrypted name => s!"Entry {name} is encrypted"
  | methodMismatch name inLocal inCentral =>
    s!"Local header of {name} uses method {inLocal}, central directory says {inCentral}"
  | pastDirectory name size offset directoryOffset =>
    s!"Entry {name} ({size} bytes at {offset}) runs past the central directory at {directoryOffset}"

/-- Why a compressed stream cannot be decoded. -/
inductive StreamFault where
  /-- The stream does not start as its format asks. -/
  | badMagic
  /-- The stream holds what no encoder writes. -/
  | corrupt
  /-- The bytes end before the stream does. -/
  | truncated
deriving DecidableEq, Repr, Inhabited

/-- The wording of why a deflate stream cannot be decoded. -/
def StreamFault.deflateMessage : StreamFault → String
  | truncated => "Deflate decompression failed: incomplete deflate stream"
  | _ => "Deflate decompression failed: corrupt deflate stream"

/-- The wording of why a bzip2 stream cannot be decoded. -/
def StreamFault.bzip2Message : StreamFault → String
  | badMagic => "BZip2 decompression failed: bzip2: bz2 header missing"
  | corrupt => "BZip2 decompression failed: bzip2: invalid data"
  | truncated => "BZip2 decompression failed: decompression not finished but EOF reached"

/-- Why a name cannot be the name of an entry. -/
inductive NameFault where
  /-- There are no characters. -/
  | empty
  /-- The name starts at a root. -/
  | absolute
  /-- A component leads upwards. -/
  | escapes
  /-- The name does not fit its length field. -/
  | tooLong
deriving DecidableEq, Repr, Inhabited

/-- The wording of why a name cannot be the name of an entry. -/
def NameFault.message : NameFault → String
  | empty => "name is empty"
  | absolute => "name is an absolute path"
  | escapes => "name escapes the archive root"
  | tooLong => "name is longer than 65535 bytes"

/-- Which field of an archive would not hold its value. -/
inductive CapacityFault where
  /-- The number of entries. -/
  | entries
  | entryOffset (name : String)
  /-- The size of the data of an entry. -/
  | dataSize (name : String)
  /-- The size of the payload of an entry. -/
  | payloadSize (name : String)
  /-- The offset of the central directory. -/
  | directoryOffset
  /-- The size of the central directory. -/
  | directorySize
deriving DecidableEq, Repr, Inhabited

/-- The wording of which field of an archive would not hold its value. -/
def CapacityFault.message : CapacityFault → String
  | entries => "more than 65534 entries require zip64"
  | entryOffset name => s!"entry {name} starts beyond 4 GiB and requires zip64"
  | dataSize name => s!"entry {name} is larger than 4 GiB"
  | payloadSize name => s!"compressed entry {name} is larger than 4 GiB"
  | directoryOffset => "central directory starts beyond 4 GiB"
  | directorySize => "central directory is larger than 4 GiB"

/-- A failure to write or read an archive. -/
inductive Error where
  /-- The file system or the sink failed. -/
  | io (cause : IoError)
  /-- The bytes are not an archive that can be read. -/
  | invalidFormat (cause : FormatError)
  /-- No method has the number. -/
  | unsupportedMethod (id : UInt16)
  /-- The method does not have the level. -/
  | invalidLevel (method : Method) (level : UInt32)
  /-- The name cannot be the name of an entry. -/
  | invalidName (name : String) (fault : NameFault)
  /-- The archive has an entry of the name already. -/
  | duplicateEntry (name : String)
  /-- No entry has the name. -/
  | noEntryNamed (name : String)
  /-- No entry has the index. -/
  | noEntryAt (index : Nat)
  /-- The payload is no deflate stream. -/
  | deflate (fault : StreamFault)
  /-- The payload is no bzip2 stream. -/
  | bzip2 (fault : StreamFault)
  /-- The data has another checksum than the archive says. -/
  | checksumMismatch (name : String) (expected actual : UInt32)
  /-- The data has another size than the archive says. -/
  | wrongSize (expected actual : Nat)
  /-- A field of the archive would not hold its value. -/
  | capacity (fault : CapacityFault)
  /-- An earlier failure left a part of a record in the sink. -/
  | brokenWriter
deriving DecidableEq, Repr

namespace Error

/-- The wording of a failure. -/
def message : Error → String
  | io cause => "I/O error: " ++ cause.message
  | invalidFormat cause => "Invalid zip format: " ++ cause.message
  | unsupportedMethod id => s!"Unsupported compression method: {id}"
  | invalidLevel method level => s!"Invalid compression level {level} for {method.label}"
  | invalidName name fault => "Invalid entry name " ++ Text.quoted name ++ ": " ++ fault.message
  | duplicateEntry name => s!"Duplicate entry: {name}"
  | noEntryNamed name => s!"Entry not found: {name}"
  | noEntryAt index => s!"Entry not found: #{index}"
  | deflate fault => "Compression error: " ++ fault.deflateMessage
  | bzip2 fault => "Compression error: " ++ fault.bzip2Message
  | checksumMismatch name expected actual =>
    "Checksum mismatch for " ++ name ++ ": expected " ++ Text.paddedHex 8 expected.toNat
      ++ ", got " ++ Text.paddedHex 8 actual.toNat
  | wrongSize expected actual => s!"Invalid file size: expected {expected}, got {actual}"
  | capacity fault => "Archive capacity exceeded: " ++ fault.message
  | brokenWriter => "Archive writer is unusable after an earlier write error"

/-- Whether the failure says that the archive is damaged. -/
def isCorruption : Error → Bool
  | invalidFormat _ | checksumMismatch .. | wrongSize .. => true
  | _ => false

end Error

end Folio
