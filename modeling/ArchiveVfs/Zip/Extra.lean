import ArchiveVfs.Checksum
import ArchiveVfs.Zip.Record

/-!
# Extra fields of records

A record has extra fields, each with a kind and a size. Some say more of the entry
than the record itself: its name in another writing, large sizes, the method
beneath strong encryption. A field that breaks its own rules spoils the record.
Where the fields end too early, those before still count.
-/

namespace ArchiveVfs.Zip

/-- Why no further field is read. -/
inductive Stop where
  /-- The fields end here; what they have said so far counts. -/
  | cut (record : Record)
  /-- A field breaks its rules. -/
  | spoiled
  deriving DecidableEq, Repr

/-- A record so far with the extra bytes that are left. -/
abbrev Progress := Record × Bytes

/-- The next `count` bytes, and those behind. -/
def demand (count : Nat) (record : Record) (rest : Bytes) : Except Stop (Bytes × Bytes) :=
  match rest.slice? 0 count with
  | some part => .ok (part, rest.drop count)
  | none => .error (.cut record)

/-- What a condition on the next fields has to be. -/
def insist (holds : Bool) : Except Stop Unit :=
  if holds then .ok () else .error .spoiled

/-- The size that stands for a larger one in a field of its own. -/
def largeMark : Nat := 0xFFFFFFFF

/-- A number of eight bytes, if one is there: the record with it, the rest, and the
number of bytes read. -/
def largeNumber (present : Bool) (put : Record → Nat → Record) (record : Record)
    (rest : Bytes) : Except Stop (Record × Bytes × Nat) :=
  if present then
    (demand 8 record rest).map fun parts => (put record parts.1.toNatLittle, parts.2, 8)
  else .ok (record, rest, 0)

/-- Large sizes, and a distant local header: each where the record has only the mark,
or all of them in a long field. -/
def largeField (size : Nat) (record : Record) (rest : Bytes) : Except Stop Progress := do
  let all : Bool := 24 ≤ size
  let (record, rest, first) ← largeNumber (all || record.size = largeMark)
    (fun record size => { record with size }) record rest
  let (record, rest, second) ← largeNumber (all || record.packedSize = largeMark)
    (fun record packedSize => { record with packedSize }) record rest
  let (record, rest, third) ← largeNumber (all || record.start = largeMark)
    (fun record start => { record with start }) record rest
  insist (first + second + third ≤ size)
  let (_, rest) ← demand (size - (first + second + third)) record rest
  return (record, rest)

/-- Times in fine steps: one attribute with three times. -/
def fineTimesField (size : Nat) (record : Record) (rest : Bytes) : Except Stop Progress := do
  insist (size = 32)
  let (_, rest) ← demand 4 record rest
  let (tag, rest) ← demand 2 record rest
  insist (tag.toNatLittle = 1)
  let (inner, rest) ← demand 2 record rest
  insist (inner.toNatLittle = 24)
  let (_, rest) ← demand 24 record rest
  return (record, rest)

/-- The field of strong encryption: its version, its maker, the length of the key and
the method beneath. -/
def strongField (size : Nat) (record : Record) (rest : Bytes) : Except Stop Progress := do
  insist (size = 7)
  let (version, rest) ← demand 2 record rest
  let (maker, rest) ← demand 2 record rest
  let (key, rest) ← demand 1 record rest
  let (method, rest) ← demand 2 record rest
  insist (maker.toNatLittle = 0x4541)
  insist (version.toNatLittle = 1 || version.toNatLittle = 2)
  insist (1 ≤ key.toNatLittle && key.toNatLittle ≤ 3)
  return ({ record with strong := true, method := .ofNumber method.toNatLittle }, rest)

/-- The number of bits that are set among the lowest eight. -/
def bitCount (flags : Nat) : Nat :=
  ((List.range 8).filter flags.testBit).length

/-- Times of day: a set of flags, and a time for each flag, or for the first one
alone. -/
def timesField (size : Nat) (record : Record) (rest : Bytes) : Except Stop Progress := do
  let (written, rest) ← demand 1 record rest
  let flags := written.toNatLittle
  insist (size = 5 || size = 1 + 4 * bitCount flags)
  insist (flags < 8)
  let (_, rest) ← demand (size - 1) record rest
  return (record, rest)

/-- A text in UTF-8 that replaces the one with the given bytes, which it names by
their checksum. -/
def replacement (size : Nat) (replaced : Bytes) (record : Record) (rest : Bytes) :
    Except Stop (Bytes × Bytes) := do
  let (_, rest) ← demand 1 record rest
  let (checksum, rest) ← demand 4 record rest
  insist (5 ≤ size)
  let (written, rest) ← demand (size - 5) record rest
  insist (checksum.toNatLittle = (Checksum.ofBytes replaced).toNat)
  return (written, rest)

/-- A text that has to be UTF-8. -/
def strictText (written : Bytes) : Except Stop String :=
  match Text.Utf8.decode written with
  | .ok text => .ok (String.ofList text)
  | .error _ => .error .spoiled

/-- Another remark. -/
def remarkField (size : Nat) (record : Record) (rest : Bytes) : Except Stop Progress := do
  let (written, rest) ← replacement size (Text.Utf8.bytesOf record.remark) record rest
  return ({ record with remark := ← strictText written }, rest)

/-- Another name. -/
def nameField (size : Nat) (record : Record) (rest : Bytes) : Except Stop Progress := do
  let (written, rest) ← replacement size record.writtenName record rest
  return ({ record with name := ← strictText written, writtenName := written }, rest)

/-- A field that says nothing of interest. -/
def otherField (size : Nat) (record : Record) (rest : Bytes) : Except Stop Progress := do
  let (_, rest) ← demand size record rest
  return (record, rest)

/-- The field of a kind, behind its size. -/
def field (kind : Nat) : (size : Nat) → Record → Bytes → Except Stop Progress :=
  if kind = 0x0001 then largeField
  else if kind = 0x000A then fineTimesField
  else if kind = 0x9901 then strongField
  else if kind = 0x5455 then timesField
  else if kind = 0x6375 then remarkField
  else if kind = 0x7075 then nameField
  else otherField

/-- The record with what its extra fields say, if none spoils it. Each field takes four
bytes or more, so `bound` fields are enough. -/
def Record.withExtras : (bound : Nat) → Record → Bytes → Option Record
  | 0, record, _ => some record
  | bound + 1, record, extra =>
    match extra.word16? 0, extra.word16? 2 with
    | some kind, some size =>
      match field kind size record (extra.drop 4) with
      | .ok (record, rest) => withExtras bound record rest
      | .error (.cut record) => some record
      | .error .spoiled => none
    | _, _ => some record

end ArchiveVfs.Zip
