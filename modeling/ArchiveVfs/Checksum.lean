import ArchiveVfs.Bytes

/-!
# Cyclic redundancy check

The 32-bit checksum of archives. The register takes one byte after the other, so
data may come in any pieces: `add_append`.
-/

namespace ArchiveVfs.Checksum

/-- The generator polynomial, lowest power first. -/
def polynomial : UInt32 := 0xEDB88320

/-- Moves the register by one bit. -/
def shift (register : UInt32) : UInt32 :=
  if register &&& 1 = 0 then register >>> 1 else (register >>> 1) ^^^ polynomial

/-- Moves the register by eight bits. -/
def shiftByte (register : UInt32) : UInt32 :=
  shift (shift (shift (shift (shift (shift (shift (shift register)))))))

/-- Takes a byte into the register. -/
def addByte (register : UInt32) (b : UInt8) : UInt32 :=
  shiftByte ((register ^^^ b.toUInt32) &&& 0xFF) ^^^ (register >>> 8)

/-- The register before any data. -/
def start : UInt32 := 0xFFFFFFFF

/-- Takes data into the register. -/
def add (register : UInt32) (data : Bytes) : UInt32 :=
  data.foldl addByte register

/-- The checksum of the data taken so far. -/
def finish (register : UInt32) : UInt32 :=
  ~~~register

/-- The checksum of data. -/
def ofBytes (data : Bytes) : UInt32 :=
  finish (add start data)

theorem add_append (register : UInt32) (first second : Bytes) :
    add register (first ++ second) = add (add register first) second :=
  List.foldl_append

end ArchiveVfs.Checksum
