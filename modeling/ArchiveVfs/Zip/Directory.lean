import ArchiveVfs.Zip.Extra

/-!
# The directory of a container

The directory is a row of records, each behind a mark. A container may have bytes
before it, so that the places of local headers count from `shift`. A local header
cannot stand in the directory or behind it.
-/

namespace ArchiveVfs.Zip

/-- The method that needs an extra field of its own. -/
def strongMethod : Nat := 99

/-- The first bytes of a record. -/
def recordMark : Bytes := [0x50, 0x4B, 0x01, 0x02]

/-- The size of a record without its variable fields. -/
def recordSize : Nat := 46

/-- Reads the record at the front of the data: the record as it is written, its extra
fields, and the data behind it. -/
def Record.readWritten (data : Bytes) : Option (Record × Bytes × Bytes) := do
  let header ← data.slice? 0 recordSize
  guard (recordMark.isPrefixOf header)
  let flags ← header.word16? 8
  let nameSize ← header.word16? 28
  let extraSize ← header.word16? 30
  let remarkSize ← header.word16? 32
  let name ← data.slice? recordSize nameSize
  let extra ← data.slice? (recordSize + nameSize) extraSize
  let remark ← data.slice? (recordSize + nameSize + extraSize) remarkSize
  let isUtf8 := flags.testBit 11
  let record : Record := {
    name := textOf isUtf8 name
    writtenName := name
    remark := textOf isUtf8 remark
    method := .ofNumber (← header.word16? 10)
    encrypted := flags.testBit 0
    streamed := flags.testBit 3
    time := ← header.word16? 12
    date := ← header.word16? 14
    checksum := UInt32.ofNat (← header.word32? 16)
    packedSize := ← header.word32? 20
    size := ← header.word32? 24
    start := ← header.word32? 42 }
  return (record, extra, data.drop (recordSize + nameSize + extraSize + remarkSize))

/-- Reads the record at the front of `data` with all that its extra fields say: the
record, and the data behind it. -/
def Record.read (shift directoryStart : Nat) (data : Bytes) : Option (Record × Bytes) := do
  let (record, extra, rest) ← readWritten data
  let record ← record.withExtras extra.length extra
  guard (record.method ≠ .other strongMethod || record.strong)
  guard (shift + record.start < directoryStart)
  return ({ record with start := shift + record.start }, rest)

/-- Reads `count` records one behind the other; those read so far are in reverse. -/
def readRecords (shift directoryStart : Nat) :
    (count : Nat) → (read : List Record) → Bytes → Option (List Record)
  | 0, read, _ => some read.reverse
  | count + 1, read, data =>
    match Record.read shift directoryStart data with
    | none => none
    | some (record, rest) => readRecords shift directoryStart count (record :: read) rest

/-- Puts a record in the place of one with the same name, or at the end. -/
def putRecord (record : Record) : List Record → List Record
  | [] => [record]
  | other :: rest =>
    if other.name = record.name then record :: rest else other :: putRecord record rest

/-- Records with every name once: the first place and the last contents count. -/
def distinct (records : List Record) : List Record :=
  records.foldl (fun kept record => putRecord record kept) []

end ArchiveVfs.Zip
