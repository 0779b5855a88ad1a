import ArchiveVfs.Text.CodePage437
import ArchiveVfs.Text.Utf8
import ArchiveVfs.Zip.Fault

/-!
# Records of a container's directory

The directory of a zip container has a record for each entry. A record says how
the entry is packed and where its local header stands; the data follow the local
header, behind its own name and extra field.
-/

namespace ArchiveVfs.Zip

/-- How the bytes of an entry are packed. -/
inductive Method where
  /-- The bytes are stored as they are. -/
  | stored
  /-- The bytes are deflated. -/
  | deflated
  /-- The method with another number. -/
  | other (number : Nat)
  deriving DecidableEq, Repr

/-- The method with a number. -/
def Method.ofNumber (number : Nat) : Method :=
  if number = 0 then .stored else if number = 8 then .deflated else .other number

/-- What the directory says of an entry. -/
structure Record where
  /-- The name. -/
  name : String
  /-- The bytes of the name as they are written. -/
  writtenName : Bytes
  /-- The remark on the entry. -/
  remark : String
  /-- How the data are packed. -/
  method : Method
  /-- Whether the data are encrypted. -/
  encrypted : Bool
  /-- Whether a field for strong encryption stands in the record. -/
  strong : Bool := false
  /-- Whether sizes and checksum follow the data. -/
  streamed : Bool
  /-- The time of day of the last change. -/
  time : Nat
  /-- The day of the last change. -/
  date : Nat
  /-- The checksum of the contents. -/
  checksum : UInt32
  /-- The number of bytes that the data take. -/
  packedSize : Nat
  /-- The number of bytes of the contents. -/
  size : Nat
  /-- Where the local header stands. -/
  start : Nat
  deriving DecidableEq, Repr

/-- Whether a record is that of a directory: its name ends in a slash of either kind. -/
def Record.isDirectory (record : Record) : Bool :=
  record.name.toList.getLast? = some '/' || record.name.toList.getLast? = some '\\'

/-- The first bytes of a local header. -/
def localMark : Bytes := [0x50, 0x4B, 0x03, 0x04]

/-- The size of a local header without its variable fields. -/
def localSize : Nat := 30

/-- Where the data of an entry begin: behind its local header, wherever that ends. -/
def Record.dataStart (record : Record) (data : Bytes) : Except Fault Nat :=
  match data.slice? record.start localSize with
  | none => .error .cut
  | some header =>
    match header.word16? 26, header.word16? 28 with
    | some nameSize, some extraSize =>
      if localMark.isPrefixOf header then .ok (record.start + localSize + nameSize + extraSize)
      else .error (.malformed .noLocalHeader)
    | _, _ => .error .cut

/-- A written text: UTF-8 with faults replaced, or code page 437. -/
def textOf (isUtf8 : Bool) (written : Bytes) : String :=
  String.ofList (if isUtf8 then Text.Utf8.decodeLossy written else Text.CodePage437.decode written)

end ArchiveVfs.Zip
