import ArchiveVfs.Codec.Value
import ArchiveVfs.Stream.Basic

/-!
# Reading values

A reader stands over a stream. It opens a closed stream to be read and closes what
it has opened. When mapping is wanted and the stream can have a view, values come
from the view, at a cursor of the reader; closing then leaves a stream that was
open before behind the bytes consumed.
-/

namespace ArchiveVfs

/-- A reader over a stream. -/
structure Reader where
  /-- The stream. -/
  stream : Stream
  /-- The byte order of the values. -/
  order : ByteOrder := .host
  /-- Whether a view is wanted. -/
  wantsView : Bool := false
  /-- The cursor and the size of the view, when values come from a view. -/
  view : Option (Nat × Nat) := none
  /-- Whether the reader has opened the stream. -/
  openedStream : Bool := false
  /-- Whether the reader is open. -/
  isOpen : Bool := false

namespace Reader

/-- Whether values come from a view. -/
def isMapped (reader : Reader) : Bool :=
  reader.view.isSome

/-- Closes the stream if the reader has opened it. -/
def release (reader : Reader) : Reader :=
  if reader.openedStream then
    { reader with stream := reader.stream.close, openedStream := false }
  else reader

/-- Maps a view if one is wanted and the stream can have one. A stream that refuses
because of its mode is read without. -/
def mapView (reader : Reader) (disk : Disk) : Except Error Unit × Reader :=
  if reader.wantsView && reader.stream.canBeMapped then
    match reader.stream.map disk with
    | .ok stream =>
      let size := ((stream.view? disk).map (·.length)).getD 0
      (.ok (), { reader with
        stream, view := some (min stream.position size, size), isOpen := true })
    | .error (.unsupportedAccess ..) | .error (.notMappable _) =>
      (.ok (), { reader with isOpen := true })
    | .error error => (.error error, reader.release)
  else (.ok (), { reader with isOpen := true })

/-- Begins to read. A closed stream is in mode read afterwards, even when it could not
be opened; opening to read leaves the disk as it is. -/
def tryOpen (reader : Reader) (mounts : Mounts) (disk : Disk) : Except Error Unit × Reader :=
  if reader.isOpen then (.error (.alreadyOpen reader.stream.uri), reader)
  else if reader.stream.isOpen then reader.mapView disk
  else
    let stream := reader.stream.setMode .read
    match stream.tryOpen mounts disk with
    | .error error => (.error error, { reader with stream })
    | .ok (stream, _) => { reader with stream, openedStream := true }.mapView disk

/-- The stream without the view, moved behind the bytes consumed if the reader did not
open it. -/
def leaveView (reader : Reader) (disk : Disk) : Reader :=
  match reader.view with
  | none => reader
  | some (cursor, _) =>
    let stream :=
      if reader.openedStream then reader.stream else (reader.stream.seek disk cursor .start).2
    { reader with stream := stream.unmap, view := none }

/-- Ends reading. -/
def close (reader : Reader) (disk : Disk) : Reader :=
  if reader.isOpen then { (reader.leaveView disk).release with isOpen := false } else reader

/-- Whether no bytes are left. -/
def atEnd (reader : Reader) : Bool :=
  match reader.view with
  | some (cursor, size) => size ≤ cursor
  | none => reader.stream.atEnd

/-- The number of bytes left. -/
def remaining (reader : Reader) : Nat :=
  match reader.view with
  | some (cursor, size) => size - cursor
  | none => reader.stream.size - reader.stream.position

/-- Reads `count` bytes from the view, or none. -/
def readView (reader : Reader) (disk : Disk) (cursor size count : Nat) :
    Except Error Bytes × Reader :=
  match reader.stream.view? disk with
  | none => (.error (.notMappable reader.stream.uri), reader)
  | some view =>
    if size < cursor + count then (.error (.outOfBounds count (size - cursor)), reader)
    else (.ok ((view.drop cursor).take count), { reader with view := some (cursor + count, size) })

/-- Reads `count` bytes from the stream; fewer are an error, and are consumed. -/
def readStream (reader : Reader) (disk : Disk) (count : Nat) : Except Error Bytes × Reader :=
  match reader.stream.read disk count with
  | (.error error, stream) => (.error error, { reader with stream })
  | (.ok data, stream) =>
    if data.length < count then (.error (.outOfBounds count data.length), { reader with stream })
    else (.ok data, { reader with stream })

/-- Reads `count` bytes. -/
def readRaw (reader : Reader) (disk : Disk) (count : Nat) : Except Error Bytes × Reader :=
  if !reader.isOpen then (.error (.notOpen reader.stream.uri), reader)
  else
    match reader.view with
    | some (cursor, size) => reader.readView disk cursor size count
    | none => reader.readStream disk count

/-- Reads `count` bytes if so many are left. -/
def readCounted (reader : Reader) (disk : Disk) (count : Nat) : Except Error Bytes × Reader :=
  if reader.remaining < count then (.error (.outOfBounds count reader.remaining), reader)
  else reader.readRaw disk count

/-- Reads the bytes of a value, the length field before them left out. -/
def readBytes (reader : Reader) (disk : Disk) (shape : Shape) : Except Error Bytes × Reader :=
  match reader.readRaw disk shape.width with
  | (.error error, reader) => (.error error, reader)
  | (.ok data, reader) =>
    if shape.isCounted then reader.readCounted disk (reader.order.ofBytes data)
    else (.ok data, reader)

/-- Reads a value. -/
def read (reader : Reader) (disk : Disk) (shape : Shape) : Except Error Value × Reader :=
  match reader.readBytes disk shape with
  | (.error error, reader) => (.error error, reader)
  | (.ok data, reader) => (shape.decode reader.order data, reader)

end Reader

end ArchiveVfs
