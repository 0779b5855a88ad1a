import ArchiveVfs.Text.Utf8

/-!
# Percent escapes

A reserved character is written as one `%XX` for each of its bytes, with digits
in upper case; every other character stands for itself. Reading undoes each
complete escape, leaves any other `%` alone, and takes the resulting bytes as
UTF-8 with faults replaced.
-/

namespace ArchiveVfs.Text.Percent

/-- The digit of `value`, which is below sixteen, in upper case. -/
def upperDigit (value : Nat) : Char :=
  if value < 10 then Char.ofNat (48 + value) else Char.ofNat (55 + value)

/-- The escape of a byte. -/
def escape (b : UInt8) : List Char :=
  ['%', upperDigit (b.toNat / 16), upperDigit (b.toNat % 16)]

/-- Controls and everything outside ASCII. -/
def isControl (c : Char) : Bool :=
  c.toNat < 0x20 || 0x7F ≤ c.toNat

/-- The characters escaped in local paths and fragments. -/
def inPath (c : Char) : Bool :=
  isControl c ||
    [' ', '\x22', '#', '%', '<', '>', '?', '\x60', '\x7b', '\x7d'].contains c

/-- The characters escaped in query keys and values: also the separators of
pairs. -/
def inQuery (c : Char) : Bool :=
  inPath c || ['&', '=', '+'].contains c

/-- A text with its reserved characters escaped. -/
def encode (reserved : Char → Bool) (cs : List Char) : List Char :=
  cs.flatMap fun c => if reserved c then (String.utf8EncodeChar c).flatMap escape else [c]

/-- The value of a hexadecimal digit. -/
def digitValue? (b : UInt8) : Option UInt8 :=
  if 48 ≤ b && b ≤ 57 then some (b - 48)
  else if 65 ≤ b && b ≤ 70 then some (b - 55)
  else if 97 ≤ b && b ≤ 102 then some (b - 87)
  else none

/-- The byte that an escape's two digits spell. -/
def pairValue? (high low : UInt8) : Option UInt8 :=
  match digitValue? high, digitValue? low with
  | some h, some l => some (h * 16 + l)
  | _, _ => none

/-- The bytes with every complete escape undone. -/
def unescape : Bytes → Bytes
  | a :: b :: c :: rest =>
    if a = 37 then
      match pairValue? b c with
      | some value => value :: unescape rest
      | none => a :: unescape (b :: c :: rest)
    else a :: unescape (b :: c :: rest)
  | bytes => bytes

/-- The text that an escaped text stands for. -/
def decode (cs : List Char) : List Char :=
  Utf8.decodeLossy (unescape (Utf8.encode cs))

end ArchiveVfs.Text.Percent
