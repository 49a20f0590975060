/-!
# The two cyclic checksums

Archives and bzip2 streams protect their data by the same polynomial of degree 32. An archive feeds
the low bit of a byte first into a register that is written backwards, a bzip2 block the high bit.

## Main definitions

* `Crc32.step`, `Crc32.byte` — the register after a bit and after a byte
* `Crc32.table`, `Crc32.feed` — the same with a table
* `crc32` — the checksum of the data of an entry
* `HighCrc32.step`, `HighCrc32.byte` — the same for bzip2
* `highCrc32` — the checksum of the output of a bzip2 block
-/

namespace Folio

namespace Crc32

/-- The polynomial without its leading term, the constant term in the high bit. -/
def polynomial : UInt32 := 0xEDB88320

/-- Divides by the polynomial for one bit. -/
def step (register : UInt32) : UInt32 :=
  if register &&& 1 = 0 then register >>> 1 else (register >>> 1) ^^^ polynomial

/-- Feeds one byte into the register. -/
def byte (register : UInt32) (b : UInt8) : UInt32 :=
  step (step (step (step (step (step (step (step (register ^^^ b.toUInt32))))))))

/-- The registers after every single byte. -/
def table : Array UInt32 := ((List.range 256).map fun n => byte 0 (UInt8.ofNat n)).toArray

/-- Feeds one byte into the register, with a look at the table in place of eight steps. -/
@[inline] def feed (register : UInt32) (b : UInt8) : UInt32 :=
  table.getD (register.toUInt8 ^^^ b).toNat 0 ^^^ (register >>> 8)

end Crc32

/-- The checksum of the data of an entry. -/
def crc32 (bytes : ByteArray) : UInt32 := bytes.foldl Crc32.feed 0xFFFFFFFF ^^^ 0xFFFFFFFF

namespace HighCrc32

/-- The polynomial without its leading term, the constant term in the low bit. -/
def polynomial : UInt32 := 0x04C11DB7

/-- Divides by the polynomial for one bit. -/
def step (register : UInt32) : UInt32 :=
  if register &&& 0x80000000 = 0 then register <<< 1 else (register <<< 1) ^^^ polynomial

/-- Feeds one byte into the register. -/
def byte (register : UInt32) (b : UInt8) : UInt32 :=
  step (step (step (step (step (step (step (step (register ^^^ (b.toUInt32 <<< 24)))))))))

end HighCrc32

/-- The checksum of the output of a bzip2 block. -/
def highCrc32 (bytes : ByteArray) : UInt32 :=
  bytes.data.foldl HighCrc32.byte 0xFFFFFFFF ^^^ 0xFFFFFFFF

end Folio
