/-!
# Byte strings

Contents of files, entries and buffers are lists of bytes. The words of binary
headers are read at an offset, least significant byte first; a field that the
data is too short for is absent.
-/

namespace ArchiveVfs

/-- A byte string. -/
abbrev Bytes := List UInt8

namespace Bytes

/-- The bytes from `offset` on, `count` of them, when the data holds them all. -/
def slice? (data : Bytes) (offset count : Nat) : Option Bytes :=
  Option.guard (fun window => window.length = count) ((data.drop offset).take count)

/-- The number a byte string spells, least significant byte first. -/
def toNatLittle : Bytes → Nat
  | [] => 0
  | b :: rest => b.toNat + 256 * toNatLittle rest

/-- The 16-bit word at `offset`. -/
def word16? (data : Bytes) (offset : Nat) : Option Nat :=
  (slice? data offset 2).map toNatLittle

/-- The 32-bit word at `offset`. -/
def word32? (data : Bytes) (offset : Nat) : Option Nat :=
  (slice? data offset 4).map toNatLittle

/-- The 64-bit word at `offset`. -/
def word64? (data : Bytes) (offset : Nat) : Option Nat :=
  (slice? data offset 8).map toNatLittle

/-- The offsets at which `mark` begins, the last one first. -/
def offsetsOf (mark : Bytes) (data : Bytes) : List Nat :=
  go 0 [] data
where
  /-- Walks the data with the offset reached and the finds so far. -/
  go (offset : Nat) (found : List Nat) : Bytes → List Nat
    | [] => found
    | b :: rest =>
      go (offset + 1) (if mark.isPrefixOf (b :: rest) then offset :: found else found) rest

end Bytes

/-- The digit of `value`, which is below sixteen, in lower case. -/
def hexDigit (value : Nat) : Char :=
  if value < 10 then Char.ofNat (48 + value) else Char.ofNat (87 + value)

/-- The two hexadecimal digits of a byte, in lower case. -/
def hexByte (b : UInt8) : List Char :=
  [hexDigit (b.toNat / 16), hexDigit (b.toNat % 16)]

/-- The eight hexadecimal digits of a word, in lower case. -/
def hexWord (w : UInt32) : String :=
  String.ofList <| (List.range 8).map fun i => hexDigit (w.toNat >>> (4 * (7 - i)) % 16)

end ArchiveVfs
