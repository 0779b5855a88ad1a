import ArchiveVfs.Checksum
import ArchiveVfs.Deflate.Supply
import ArchiveVfs.Disk.Contents
import ArchiveVfs.Error

/-!
# Reading entries

An entry is read from its beginning to its end. Stored and deflated entries are
decoded while they are read, and their checksum is checked together with the last
byte; decrypted entries come from a buffer and are not checked again. `delivered`
never passes `size`.
-/

namespace ArchiveVfs

/-- The bytes of an archive. -/
inductive ArchiveData where
  /-- The first `size` bytes of a file, as the file is now. -/
  | mapped (node : NodeId) (size : Nat)
  /-- Bytes read when the archive was opened. -/
  | loaded (data : Bytes)
  deriving DecidableEq, Repr

namespace ArchiveData

/-- The present bytes. -/
def bytes (data : ArchiveData) (disk : Disk) : Bytes :=
  match data with
  | .mapped node size => disk.view node size
  | .loaded data => data

/-- The number of bytes. -/
def size : ArchiveData → Nat
  | .mapped _ size => size
  | .loaded data => data.length

/-- Whether the bytes are those of the file itself. -/
def isMapped : ArchiveData → Bool
  | .mapped .. => true
  | .loaded _ => false

/-- The present bytes from `start` to `finish`. -/
def window (data : ArchiveData) (disk : Disk) (start finish : Nat) : Bytes :=
  ((data.bytes disk).drop start).take (finish - start)

end ArchiveData

/-- Where the contents of an entry come from. -/
inductive EntrySource where
  /-- A window of the archive holds them as they are. -/
  | stored (data : ArchiveData) (start finish : Nat)
  /-- A window of the archive holds them deflated. -/
  | deflated (data : ArchiveData) (start finish : Nat) (supply : Deflate.Supply)
  /-- They are decoded already. -/
  | decoded (contents : Bytes)

/-- A reader in the middle of an entry. -/
structure EntryReader where
  /-- Where the contents come from. -/
  source : EntrySource
  /-- The recorded number of bytes. -/
  size : Nat
  /-- The number of bytes handed out. -/
  delivered : Nat := 0
  /-- The recorded checksum, if it is to be checked. -/
  expected : Option UInt32
  /-- The checksum of the bytes handed out, unfinished. -/
  register : UInt32 := Checksum.start

/-- The fault of a transfer that compressed data spoil. -/
def TransferFault.ofDeflate : Deflate.Fault → TransferFault
  | .incomplete => .incompleteDeflate
  | .corrupt => .corruptDeflate

namespace EntrySource

/-- The next bytes at `position`, up to `count` of them, and the source afterwards. -/
def fetch (source : EntrySource) (disk : Disk) (position count : Nat) :
    Except TransferFault Bytes × EntrySource :=
  match source with
  | .stored data start finish =>
    (.ok ((data.window disk (start + position) finish).take count), source)
  | .decoded contents => (.ok ((contents.drop position).take count), source)
  | .deflated data start finish supply =>
    let piece := fun offset => (data.window disk (start + offset) finish).take Deflate.pieceSize
    let (answer, supply) := supply.read piece position count
    (answer.mapError .ofDeflate, .deflated data start finish supply)

end EntrySource

namespace EntryReader

/-- A reader of stored contents. -/
def ofStored (data : ArchiveData) (start finish size : Nat) (checksum : UInt32) : EntryReader where
  source := .stored data start finish
  size
  expected := some checksum

/-- A reader of deflated contents. -/
def ofDeflated (data : ArchiveData) (start finish size : Nat) (checksum : UInt32) :
    EntryReader where
  source := .deflated data start finish (.ofSize (finish - start))
  size
  expected := some checksum

/-- A reader of decoded contents. -/
def ofContents (contents : Bytes) : EntryReader where
  source := .decoded contents
  size := contents.length
  expected := none

/-- The fault of a checksum that is not the expected one. -/
def checksumFault? (reader : EntryReader) : Option TransferFault :=
  match reader.expected with
  | none => none
  | some expected =>
    let actual := Checksum.finish reader.register
    if actual = expected then none else some (.wrongChecksum expected actual)

/-- The reader after `found` was handed out. -/
def advance (reader : EntryReader) (found : Bytes) : EntryReader :=
  { reader with
    delivered := reader.delivered + found.length
    register := Checksum.add reader.register found }

/-- Reads up to `count` bytes; none are left at the recorded size. The reader moves on
even when the checksum turns out wrong. -/
def read (reader : EntryReader) (disk : Disk) (count : Nat) :
    Except TransferFault Bytes × EntryReader :=
  let wanted := min count (reader.size - reader.delivered)
  if wanted = 0 then (.ok [], reader)
  else
    match reader.source.fetch disk reader.delivered wanted with
    | (.error fault, source) => (.error fault, { reader with source })
    | (.ok [], source) =>
      (.error (.truncatedEntry reader.delivered reader.size), { reader with source })
    | (.ok found, source) =>
      let reader := { reader with source }.advance found
      if reader.delivered = reader.size then
        match reader.checksumFault? with
        | some fault => (.error fault, reader)
        | none => (.ok found, reader)
      else (.ok found, reader)

/-- Reads until `count` bytes are there or no more come, behind those in `read`. Each
round brings a byte or is the last, so `count` rounds are enough. -/
def fillFrom (disk : Disk) : (rounds : Nat) → (count : Nat) → (found : Bytes) → EntryReader →
    Except TransferFault Bytes × EntryReader
  | 0, _, found, reader => (.ok found, reader)
  | rounds + 1, count, found, reader =>
    match reader.read disk count with
    | (.error fault, reader) => (.error fault, reader)
    | (.ok [], reader) => (.ok found, reader)
    | (.ok more, reader) => fillFrom disk rounds (count - more.length) (found ++ more) reader

/-- Reads `count` bytes, or all that are left. -/
def fill (reader : EntryReader) (disk : Disk) (count : Nat) :
    Except TransferFault Bytes × EntryReader :=
  reader.fillFrom disk count count []

/-- The number of bytes that are passed over at once. -/
def skipSize : Nat := 8192

/-- Passes over `count` bytes. -/
def skipFrom (disk : Disk) : (rounds : Nat) → (count : Nat) → EntryReader →
    Except TransferFault Unit × EntryReader
  | 0, _, reader => (.ok (), reader)
  | rounds + 1, count, reader =>
    match reader.read disk (min count skipSize) with
    | (.error fault, reader) => (.error fault, reader)
    | (.ok [], reader) => (.ok (), reader)
    | (.ok found, reader) => skipFrom disk rounds (count - found.length) reader

/-- Passes over `count` bytes. Each round takes a byte or is the last. -/
def skip (reader : EntryReader) (disk : Disk) (count : Nat) :
    Except TransferFault Unit × EntryReader :=
  reader.skipFrom disk count count

end EntryReader

end ArchiveVfs
