import ArchiveVfs.Stream.Entry
import ArchiveVfs.Stream.File
import ArchiveVfs.Stream.Memory

/-!
# Streams

A stream is over memory, over a file or over an entry of an archive. All follow the
same course: set the mode, open, read, write and seek, close. Opening and writing
may change the disk.
-/

namespace ArchiveVfs

/-- A stream of any kind. -/
inductive Stream where
  /-- Over memory. -/
  | memory (stream : MemoryStream)
  /-- Over a file. -/
  | file (stream : FileStream)
  /-- Over an entry of an archive. -/
  | entry (stream : EntryStream)

namespace Stream

/-- The location of a stream. -/
def uri : Stream → Uri
  | memory stream => stream.uri
  | file stream => stream.uri
  | entry stream => stream.uri

/-- The mode of the present or the next opening. -/
def mode : Stream → AccessMode
  | memory stream => stream.mode
  | file stream => stream.mode
  | entry stream => stream.mode

/-- Whether the stream is open. -/
def isOpen : Stream → Bool
  | memory stream => stream.isOpen
  | file stream => stream.isOpen
  | entry stream => stream.isOpen

/-- The number of bytes. -/
def size : Stream → Nat
  | memory stream => stream.size
  | file stream => stream.size
  | entry stream => stream.size

/-- The place of the next read or write. -/
def position : Stream → Nat
  | memory stream => stream.position
  | file stream => stream.position
  | entry stream => stream.position

/-- Whether the position has reached the end. -/
def atEnd (stream : Stream) : Bool :=
  stream.size ≤ stream.position

/-- Whether a view is mapped. -/
def isMapped : Stream → Bool
  | memory stream => stream.isMapped
  | file stream => stream.isMapped
  | entry _ => false

/-- Whether the kind of stream can be read. -/
def canRead : Stream → Bool
  | memory _ | file _ | entry _ => true

/-- Whether the kind of stream can be written. -/
def canWrite : Stream → Bool
  | memory _ | file _ => true
  | entry _ => false

/-- Whether the kind of stream can be moved. -/
def canSeek : Stream → Bool
  | memory _ | file _ | entry _ => true

/-- Whether the stream can have a view in its mode. -/
def canBeMapped : Stream → Bool
  | memory _ => true
  | file stream => stream.mode = .read
  | entry _ => false

/-- Sets the mode of the next opening, which is permitted only while the stream is closed: an open
stream has been opened in the mode that it has. -/
def setMode (mode : AccessMode) : Stream → Stream
  | memory stream => memory (stream.setMode mode)
  | file stream => file (stream.setMode mode)
  | entry stream => entry (stream.setMode mode)

/-- Opens the stream. -/
def tryOpen (mounts : Mounts) (disk : Disk) : Stream → Except Error (Stream × Disk)
  | memory stream => stream.tryOpen.map fun stream => (memory stream, disk)
  | file stream => (stream.tryOpen disk).map fun opened => (file opened.1, opened.2)
  | entry stream => (stream.tryOpen mounts disk).map fun stream => (entry stream, disk)

/-- Closes the stream. -/
def close : Stream → Stream
  | memory stream => memory stream.close
  | file stream => file stream.close
  | entry stream => entry stream.close

/-- What remains of a stream that an operation has or has not replaced. -/
def replaced {α β : Type} (old : Stream) (wrap : β → Stream) :
    Except Error (α × β) → Except Error α × Stream
  | .ok (value, new) => (.ok value, wrap new)
  | .error error => (.error error, old)

/-- Reads up to `count` bytes; fewer only at the end. -/
def read (disk : Disk) (count : Nat) : Stream → Except Error Bytes × Stream
  | memory stream => replaced (memory stream) memory (stream.read count)
  | file stream => replaced (file stream) file (stream.read disk count)
  | entry stream =>
    let outcome := stream.read disk count
    (outcome.1, entry outcome.2)

/-- Writes all of the bytes at the position. -/
def write (disk : Disk) (new : Bytes) : Stream → Except Error (Stream × Disk)
  | memory stream => (stream.write new).map fun stream => (memory stream, disk)
  | file stream => (stream.write disk new).map fun written => (file written.1, written.2)
  | entry stream => .error stream.write

/-- Moves the position. -/
def seek (disk : Disk) (offset : Int) (origin : Origin) : Stream → Except Error Unit × Stream
  | memory stream =>
    replaced (memory stream) memory ((stream.seek offset origin).map fun stream => ((), stream))
  | file stream =>
    replaced (file stream) file ((stream.seek offset origin).map fun stream => ((), stream))
  | entry stream =>
    let outcome := stream.seek disk offset origin
    (outcome.1, entry outcome.2)

/-- Maps a view of the whole stream. -/
def map (disk : Disk) : Stream → Except Error Stream
  | memory stream => stream.map.map memory
  | file stream => (stream.map disk).map file
  | entry stream => .error (.notMappable stream.uri)

/-- Gives the view up. -/
def unmap : Stream → Stream
  | memory stream => memory stream.unmap
  | file stream => file stream.unmap
  | entry stream => entry stream

/-- The mapped view. -/
def view? (disk : Disk) : Stream → Option Bytes
  | memory stream => stream.view?
  | file stream => stream.view? disk
  | entry _ => none

end Stream

end ArchiveVfs
