import ArchiveVfs.Disk.Contents
import ArchiveVfs.Stream.Seek

/-!
# Streams over memory

The buffer of a memory stream outlives closing. Opening to write empties it, and
opening to append starts at its end. While a view is mapped nothing can be written.
An operation that fails changes nothing.
-/

namespace ArchiveVfs

/-- A stream over a buffer. -/
structure MemoryStream where
  /-- The location that the stream reports. -/
  uri : Uri
  /-- The mode of the present or the next opening. -/
  mode : AccessMode := .read
  /-- The buffer. -/
  data : Bytes := []
  /-- The place of the next read or write. -/
  position : Nat := 0
  /-- Whether the stream is open. -/
  isOpen : Bool := false
  /-- Whether a view is mapped. -/
  isMapped : Bool := false
  deriving DecidableEq, Repr

namespace MemoryStream

/-- The location of streams that were given none. -/
def anonymous : Uri := .ofParts "mem" "" ""

/-- A closed stream over given bytes. -/
def ofBytes (data : Bytes) : MemoryStream where
  uri := anonymous
  data

/-- The number of bytes. -/
def size (stream : MemoryStream) : Nat :=
  stream.data.length

/-- Sets the mode of the next opening, which is permitted only while the stream is closed. -/
def setMode (stream : MemoryStream) (mode : AccessMode) : MemoryStream :=
  { stream with mode }

/-- The stream opened in its mode. -/
def opened (stream : MemoryStream) : MemoryStream :=
  match stream.mode with
  | .write => { stream with data := [], position := 0, isOpen := true }
  | .append => { stream with position := stream.data.length, isOpen := true }
  | .read | .readWrite => { stream with position := 0, isOpen := true }

/-- Opens the stream. -/
def tryOpen (stream : MemoryStream) : Except Error MemoryStream :=
  if stream.isOpen then .error (.alreadyOpen stream.uri) else .ok stream.opened

/-- Closes the stream. -/
def close (stream : MemoryStream) : MemoryStream :=
  { stream with isOpen := false, isMapped := false, position := 0 }

/-- The error of an activity that the mode does not permit. -/
def refusal (stream : MemoryStream) (action : Action) : Error :=
  .unsupportedAccess stream.uri stream.mode action

/-- Reads up to `count` bytes. -/
def read (stream : MemoryStream) (count : Nat) : Except Error (Bytes × MemoryStream) :=
  if !stream.isOpen then .error (.notOpen stream.uri)
  else if !stream.mode.canRead then .error (stream.refusal .readBytes)
  else
    let found := (stream.data.drop stream.position).take count
    .ok (found, { stream with position := stream.position + found.length })

/-- The place where the next bytes are written. -/
def writePosition (stream : MemoryStream) : Nat :=
  if stream.mode = .append then stream.data.length else stream.position

/-- Writes bytes, in mode append at the end. -/
def write (stream : MemoryStream) (new : Bytes) : Except Error MemoryStream :=
  if !stream.isOpen then .error (.notOpen stream.uri)
  else if !stream.mode.canWrite then .error (stream.refusal .writeBytes)
  else if stream.isMapped then .error (stream.refusal .writeWhileMapped)
  else
    .ok { stream with
      data := stream.data.overwrite stream.writePosition new
      position := stream.writePosition + new.length }

/-- Moves the position. -/
def seek (stream : MemoryStream) (offset : Int) (origin : Origin) : Except Error MemoryStream :=
  if !stream.isOpen then .error (.notOpen stream.uri)
  else
    (seekTarget stream.position stream.size offset origin).map fun position =>
      { stream with position }

/-- Maps a view of the whole buffer. -/
def map (stream : MemoryStream) : Except Error MemoryStream :=
  if stream.isOpen then .ok { stream with isMapped := true } else .error (.notOpen stream.uri)

/-- Gives the view up. -/
def unmap (stream : MemoryStream) : MemoryStream :=
  { stream with isMapped := false }

/-- The mapped view. -/
def view? (stream : MemoryStream) : Option Bytes :=
  if stream.isMapped then some stream.data else none

end MemoryStream

end ArchiveVfs
