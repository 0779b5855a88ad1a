import ArchiveVfs.Deflate.Bits

/-!
# Decoded bytes

Decoded bytes stand in a row of windows. A window is full when a byte has to go
behind it. If by then the compressed data are all but used up, with no whole byte
left, decoding pauses at the full window until more data are there.
-/

namespace ArchiveVfs.Deflate

/-- The number of bytes in a window. -/
def windowSize : Nat := 32768

/-- Decoded bytes, and where decoding them pauses. -/
structure Output where
  /-- The bytes. -/
  bytes : Array UInt8 := #[]
  /-- The end of the last full window, if decoding pauses there. -/
  pause : Option Nat := none
  deriving Repr

namespace Output

/-- Puts a byte behind the others, with no whole byte of compressed data left or with
some. -/
def push (output : Output) (isSpent : Bool) (b : UInt8) : Output :=
  let size := output.bytes.size
  { bytes := output.bytes.push b
    pause :=
      if 0 < size && size % windowSize = 0 then if isSpent then some size else none
      else output.pause }

/-- The byte that stands `distance` bytes back; before the first byte stand zeros. -/
def back (output : Output) (distance : Nat) : UInt8 :=
  if distance ≤ output.bytes.size then output.bytes[output.bytes.size - distance]?.getD 0 else 0

/-- Puts `length` bytes from `distance` bytes back behind the others. -/
def copyBack (distance : Nat) (isSpent : Bool) : (length : Nat) → Output → Output
  | 0, output => output
  | length + 1, output =>
    copyBack distance isSpent length (output.push isSpent (output.back distance))

end Output

end ArchiveVfs.Deflate
