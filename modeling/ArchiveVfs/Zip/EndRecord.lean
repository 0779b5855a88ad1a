import ArchiveVfs.Zip.Directory

/-!
# End records

What stands at the end of a container says where its directory is and how many records it
has. The fields of an end record are too small for a large container: there a second end
record has the numbers, and a locator right before the first says where to look for it.

Bytes before the container do no harm. The directory is the first record at or behind the
place where it should be, or the large end record is the first that fits its locator, and what
separates the two places is added to every other offset.
-/

namespace ArchiveVfs.Zip

/-- The first bytes of an end record. -/
def endMark : Bytes := [0x50, 0x4B, 0x05, 0x06]

/-- The size of an end record without its comment. -/
def endSize : Nat := 22

/-- The end record of a container. -/
structure EndRecord where
  /-- Where the end record stands. -/
  position : Nat
  /-- The number of this volume. -/
  volume : Nat
  /-- The number of the volume with the directory. -/
  directoryVolume : Nat
  /-- The number of records on this volume. -/
  count : Nat
  /-- The number of records on all volumes. -/
  total : Nat
  /-- Where the directory should be. -/
  directory : Nat
  /-- The number of bytes of the comment behind it. -/
  commentSize : Nat
  deriving DecidableEq, Repr

/-- Reads the end record at `position`, if the data hold it. -/
def EndRecord.read? (data : Bytes) (position : Nat) : Option EndRecord := do
  let header ← data.slice? position endSize
  return {
    position
    volume := ← header.word16? 4
    directoryVolume := ← header.word16? 6
    count := ← header.word16? 8
    total := ← header.word16? 10
    directory := ← header.word32? 16
    commentSize := ← header.word16? 20 }

/-- Reads the end record at `position`; its comment has to fit the data too. -/
def EndRecord.read (data : Bytes) (position : Nat) : Except Fault EndRecord :=
  match EndRecord.read? data position with
  | none => .error .cut
  | some record =>
    if position + endSize + record.commentSize ≤ data.length then .ok record
    else .error (.malformed .commentCut)

/-! ## Large containers -/

/-- The first bytes of a locator. -/
def locatorMark : Bytes := [0x50, 0x4B, 0x06, 0x07]

/-- The size of a locator. -/
def locatorSize : Nat := 20

/-- Leads from an end record to the large one. -/
structure Locator where
  /-- Where the locator stands. -/
  position : Nat
  /-- The number of the volume with the large end record. -/
  directoryVolume : Nat
  /-- Where the large end record should be. -/
  target : Nat
  /-- The number of volumes. -/
  volumes : Nat
  deriving DecidableEq, Repr

/-- The locator right before an end record, if there is one. -/
def Locator.before? (data : Bytes) (position : Nat) : Option Locator := do
  guard (locatorSize ≤ position)
  let block ← data.slice? (position - locatorSize) locatorSize
  guard (locatorMark.isPrefixOf block)
  return {
    position := position - locatorSize
    directoryVolume := ← block.word32? 4
    target := ← block.word64? 8
    volumes := ← block.word32? 16 }

/-- The locator that counts: one is looked for where a field of the end record is full. -/
def EndRecord.locator? (record : EndRecord) (data : Bytes) : Option Locator :=
  if record.total = 0xFFFF ∨ record.directory = 0xFFFFFFFF then
    Locator.before? data record.position
  else none

/-- The first bytes of a large end record. -/
def largeEndMark : Bytes := [0x50, 0x4B, 0x06, 0x06]

/-- The size of a large end record without what may be added to it. -/
def largeEndSize : Nat := 56

/-- The number of bytes of a large end record that its size field leaves out. -/
def largeEndLead : Nat := 12

/-- The end record of a large container. -/
structure LargeEnd where
  /-- Where the record stands. -/
  position : Nat
  /-- The number of bytes behind the size field. -/
  size : Nat
  /-- The version of the format that the container was made with. -/
  maker : Nat
  /-- The version of the format that reading it takes. -/
  needed : Nat
  /-- The number of this volume. -/
  volume : Nat
  /-- The number of the volume with the directory. -/
  directoryVolume : Nat
  /-- The number of records on this volume. -/
  count : Nat
  /-- The number of records on all volumes. -/
  total : Nat
  /-- Where the directory should be. -/
  directory : Nat
  deriving DecidableEq, Repr

/-- Reads the large end record at `position`, if the data hold it. -/
def LargeEnd.read? (data : Bytes) (position : Nat) : Option LargeEnd := do
  let header ← data.slice? position largeEndSize
  return {
    position
    size := ← header.word64? 4
    maker := ← header.word16? 12
    needed := ← header.word16? 14
    volume := ← header.word32? 16
    directoryVolume := ← header.word32? 20
    count := ← header.word64? 24
    total := ← header.word64? 32
    directory := ← header.word64? 48 }

/-- Reads the large end record at `position`: it reaches up to its locator, agrees with it, and
leaves room for the records before it. -/
def LargeEnd.read (locator : Locator) (data : Bytes) (position : Nat) : Except Fault LargeEnd :=
  match LargeEnd.read? data position with
  | none => .error .cut
  | some record =>
    if record.size + largeEndLead < largeEndSize then .error (.malformed .largeEndShort)
    else if locator.position < position + (record.size + largeEndLead) then
      .error (.malformed .largeEndLong)
    else if record.directoryVolume ≠ locator.directoryVolume then
      .error (.malformed .largeEndElsewhere)
    else if position + (record.size + largeEndLead) ≠ locator.position then
      .error (.malformed .largeEndApart)
    else if position < record.total * recordSize + record.directory then
      .error (.malformed .tooManyRecords)
    else .ok record

/-- The first of several candidates that is a large end record. Without one the fault is that of
the last candidate. -/
def LargeEnd.among (locator : Locator) (data : Bytes) : (fault : Fault) →
    (candidates : List Nat) → Except Fault LargeEnd
  | fault, [] => .error fault
  | _, position :: rest =>
    match LargeEnd.read locator data position with
    | .ok record => .ok record
    | .error fault => LargeEnd.among locator data fault rest

/-- The large end record that a locator leads to: at its target or behind it. -/
def Locator.largeEnd (locator : Locator) (data : Bytes) : Except Fault LargeEnd :=
  if locator.position ≤ locator.target then .error (.malformed .locatorAhead)
  else if 1 < locator.volumes then .error (.malformed .severalVolumes)
  else
    let candidates := (Bytes.offsetsOf largeEndMark (data.take locator.position)).reverse
    LargeEnd.among locator data (.malformed .noLargeEnd)
      (candidates.filter fun position => locator.target ≤ position)

/-! ## Directories -/

/-- Where a directory is. -/
structure DirectoryPlace where
  /-- Where its first record begins. -/
  start : Nat
  /-- What is added to every offset. -/
  shift : Nat
  /-- The number of records. -/
  count : Nat
  /-- Whether the end record can be gone by. -/
  isSound : Bool
  deriving DecidableEq, Repr

/-- The place that an end record tells; a container has one volume only. -/
def EndRecord.place (record : EndRecord) (start shift : Nat) : DirectoryPlace where
  start
  shift
  count := record.count
  isSound := record.volume = record.directoryVolume

/-- The place that a large end record tells. -/
def LargeEnd.place (record : LargeEnd) (locator : Locator) : DirectoryPlace where
  start := record.directory + (record.position - locator.target)
  shift := record.position - locator.target
  count := record.total
  isSound :=
    record.count ≤ record.total && record.needed ≤ record.maker
      && record.volume = record.directoryVolume

/-- The first offset, at or behind `position`, at which `mark` begins before `bound`. -/
def firstMark (mark : Bytes) (position bound : Nat) (data : Bytes) : Option Nat :=
  go position ((data.take bound).drop position)
where
  /-- Walks the data with the offset reached. -/
  go (offset : Nat) : Bytes → Option Nat
    | [] => none
    | b :: rest => if mark.isPrefixOf (b :: rest) then some offset else go (offset + 1) rest

/-- Where the directory of a container is that is not large. One without records needs none. -/
def EndRecord.smallPlace (record : EndRecord) (data : Bytes) : Except Fault DirectoryPlace :=
  if record.total = 0 then
    .ok (record.place (max record.position record.directory) (record.position - record.directory))
  else if record.position ≤ record.directory then .error (.malformed .directoryBehindEnd)
  else
    match firstMark recordMark record.directory record.position data with
    | some start => .ok (record.place start (start - record.directory))
    | none => .error (.malformed .noDirectory)

/-- Where the directory is. -/
def EndRecord.directoryPlace (record : EndRecord) (data : Bytes) : Except Fault DirectoryPlace :=
  match record.locator? data with
  | none => record.smallPlace data
  | some locator => (locator.largeEnd data).map fun large => large.place locator

/-- The records of the directory at a place. -/
def DirectoryPlace.records? (place : DirectoryPlace) (data : Bytes) : Option (List Record) :=
  if place.isSound then
    readRecords place.shift place.start place.count [] (data.drop place.start)
  else none

end ArchiveVfs.Zip
