import ArchiveVfs.Codec.Value
import ArchiveVfs.Stream.Basic

/-!
# Writing values

A writer stands over a stream. It opens a closed stream to be written and closes
what it has opened. A value that has no bytes is refused before the stream is
asked.
-/

namespace ArchiveVfs

/-- A writer over a stream. -/
structure Writer where
  /-- The stream. -/
  stream : Stream
  /-- The byte order of the values. -/
  order : ByteOrder := .host
  /-- Whether the writer has opened the stream. -/
  openedStream : Bool := false
  /-- Whether the writer is open. -/
  isOpen : Bool := false

namespace Writer

/-- Begins to write. A closed stream is in mode write afterwards, even when it could
not be opened. -/
def tryOpen (writer : Writer) (mounts : Mounts) (disk : Disk) :
    Except Error Unit × Writer × Disk :=
  if writer.isOpen then (.error (.alreadyOpen writer.stream.uri), writer, disk)
  else if writer.stream.isOpen then (.ok (), { writer with isOpen := true }, disk)
  else
    let stream := writer.stream.setMode .write
    match stream.tryOpen mounts disk with
    | .error error => (.error error, { writer with stream }, disk)
    | .ok (stream, disk) =>
      (.ok (), { writer with stream, openedStream := true, isOpen := true }, disk)

/-- Ends writing. -/
def close (writer : Writer) : Writer :=
  if !writer.isOpen then writer
  else if writer.openedStream then
    { writer with stream := writer.stream.close, openedStream := false, isOpen := false }
  else { writer with isOpen := false }

/-- Writes bytes as they are. -/
def writeRaw (writer : Writer) (disk : Disk) (data : Bytes) : Except Error (Writer × Disk) :=
  if !writer.isOpen then .error (.notOpen writer.stream.uri)
  else
    (writer.stream.write disk data).map fun written =>
      ({ writer with stream := written.1 }, written.2)

/-- Writes a value. -/
def write (writer : Writer) (disk : Disk) (value : Value) : Except Error (Writer × Disk) :=
  match value.encode writer.order with
  | .error error => .error error
  | .ok data => writer.writeRaw disk data

end Writer

end ArchiveVfs
