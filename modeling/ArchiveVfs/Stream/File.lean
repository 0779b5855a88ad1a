import ArchiveVfs.Disk.Contents
import ArchiveVfs.Stream.Seek
import ArchiveVfs.Uri.NativePath

/-!
# Streams over files

A file stream holds a node of the disk while it is open. It keeps the size it has
seen, which a write may extend, and its position also when others change the file.
An operation that fails changes nothing.
-/

namespace ArchiveVfs

/-- A stream over a file. -/
structure FileStream where
  /-- The location of the file. -/
  uri : Uri
  /-- The mode of the present or the next opening. -/
  mode : AccessMode := .read
  /-- The open node. -/
  node : Option NodeId := none
  /-- The number of bytes, as last seen. -/
  size : Nat := 0
  /-- The place of the next read or write. -/
  position : Nat := 0
  /-- The number of bytes in the mapped view. -/
  viewSize : Option Nat := none
  deriving DecidableEq, Repr

namespace FileStream

/-- Whether the stream is open. -/
def isOpen (stream : FileStream) : Bool :=
  stream.node.isSome

/-- Whether a view is mapped. -/
def isMapped (stream : FileStream) : Bool :=
  stream.viewSize.isSome

/-- Sets the mode of the next opening, which is permitted only while the stream is closed. -/
def setMode (stream : FileStream) (mode : AccessMode) : FileStream :=
  { stream with mode }

/-- The error of a failed opening. -/
def openError (stream : FileStream) : SystemFault → Error
  | .notFound => .notFound stream.uri
  | fault => .disk .openStream stream.uri.nativePath fault

/-- Opens the file as the mode asks. -/
def tryOpen (stream : FileStream) (disk : Disk) : Except Error (FileStream × Disk) :=
  if stream.isOpen then .error (.alreadyOpen stream.uri)
  else
    match disk.openNode stream.mode stream.uri.nativePath with
    | .error fault => .error (stream.openError fault)
    | .ok (node, disk) =>
      let size := disk.size node
      let position := if stream.mode = .append then size else 0
      .ok ({ stream with node := some node, size, position }, disk)

/-- Closes the stream; the size it has seen stays. -/
def close (stream : FileStream) : FileStream :=
  { stream with node := none, viewSize := none, position := 0 }

/-- The error of an activity that the mode does not permit. -/
def refusal (stream : FileStream) (action : Action) : Error :=
  .unsupportedAccess stream.uri stream.mode action

/-- Reads up to `count` bytes. -/
def read (stream : FileStream) (disk : Disk) (count : Nat) : Except Error (Bytes × FileStream) :=
  match stream.node with
  | none => .error (.notOpen stream.uri)
  | some node =>
    if !stream.mode.canRead then .error (stream.refusal .readBytes)
    else if count = 0 then .ok ([], stream)
    else
      match disk.readAt node stream.position count with
      | .error fault => .error (.transfer (.system fault))
      | .ok found => .ok (found, { stream with position := stream.position + found.length })

/-- Writes bytes, in mode append at the end of the file. -/
def write (stream : FileStream) (disk : Disk) (new : Bytes) : Except Error (FileStream × Disk) :=
  match stream.node with
  | none => .error (.notOpen stream.uri)
  | some node =>
    if !stream.mode.canWrite then .error (stream.refusal .writeBytes)
    else
      let offset := if stream.mode = .append then disk.size node else stream.position
      let start := if stream.mode = .append then stream.size else stream.position
      match disk.writeAt node offset new with
      | .error fault => .error (.transfer (.system fault))
      | .ok disk =>
        let position := start + new.length
        .ok ({ stream with position, size := max stream.size position }, disk)

/-- Moves the position. -/
def seek (stream : FileStream) (offset : Int) (origin : Origin) : Except Error FileStream :=
  if !stream.isOpen then .error (.notOpen stream.uri)
  else
    (seekTarget stream.position stream.size offset origin).map fun position =>
      { stream with position }

/-- Maps a view of the whole file; only mode read permits it. -/
def map (stream : FileStream) (disk : Disk) : Except Error FileStream :=
  match stream.node with
  | none => .error (.notOpen stream.uri)
  | some node =>
    if stream.mode ≠ .read then .error (stream.refusal .mapView)
    else if stream.isMapped then .ok stream
    else if stream.size = 0 then .ok { stream with viewSize := some 0 }
    else if disk.isFile node then .ok { stream with viewSize := some (disk.size node) }
    else .error (.disk .mapView stream.uri.nativePath .noDevice)

/-- Gives the view up. -/
def unmap (stream : FileStream) : FileStream :=
  { stream with viewSize := none }

/-- The mapped view: the present bytes of the file. -/
def view? (stream : FileStream) (disk : Disk) : Option Bytes :=
  match stream.node, stream.viewSize with
  | some node, some size => some (disk.view node size)
  | _, _ => none

end FileStream

end ArchiveVfs
