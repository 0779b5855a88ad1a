import ArchiveVfs.Disk.Walk
import ArchiveVfs.Stream.Access

/-!
# Contents of open nodes

Opening a path gives a node to read from and to write to. Bytes are written at an
offset: they replace those that are there, and zeros fill a gap before them.
-/

namespace ArchiveVfs

namespace Bytes

/-- The data with `new` at `offset`, zeros in front if the data end before it. -/
def overwrite (data : Bytes) (offset : Nat) (new : Bytes) : Bytes :=
  data.take offset ++ List.replicate (offset - data.length) 0 ++ new
    ++ data.drop (offset + new.length)

end Bytes

namespace Disk

/-- The size that the system reports for a directory. -/
def directorySize : Nat := 4096

/-- The size of a node in bytes. -/
def size (disk : Disk) (id : NodeId) : Nat :=
  match disk.content? id with
  | some (.file data) => data.length
  | some (.directory ..) => directorySize
  | _ => 0

/-- The bytes of a node; none for what is no file. -/
def bytes (disk : Disk) (id : NodeId) : Bytes :=
  match disk.content? id with
  | some (.file data) => data
  | _ => []

/-- The bytes that a mapping of `size` bytes of a node shows. A file that is mapped is not to be
shortened: the system stops a program that looks behind the end. The zeros there keep the size
of the view, and stand for no bytes that a program gets to see. -/
def view (disk : Disk) (id : NodeId) (size : Nat) : Bytes :=
  let data := (disk.bytes id).take size
  data ++ List.replicate (size - data.length) 0

/-- Reads up to `count` bytes at `offset`. -/
def readAt (disk : Disk) (id : NodeId) (offset count : Nat) : Except SystemFault Bytes :=
  match disk.content? id with
  | some (.file data) => .ok ((data.drop offset).take count)
  | some (.directory ..) => .error .isDirectory
  | some (.device .full) | some (.device .zero) => .ok (List.replicate count 0)
  | _ => .ok []

/-- The disk with the contents of a file replaced. -/
def setBytes (disk : Disk) (id : NodeId) (data : Bytes) : Disk :=
  disk.update id fun node => { node with content := .file data, writeTime := disk.clock }

/-- Writes bytes at `offset`; nothing happens without bytes. -/
def writeAt (disk : Disk) (id : NodeId) (offset : Nat) (new : Bytes) :
    Except SystemFault Disk :=
  if new.isEmpty then .ok disk
  else
    match disk.content? id with
    | some (.file data) => .ok (disk.setBytes id (data.overwrite offset new))
    | some (.directory ..) => .error .isDirectory
    | some (.device .full) => .error .noSpace
    | _ => .ok disk

/-- Refuses to write to a directory and to what is marked read-only. -/
def demandWrite (disk : Disk) (id : NodeId) : Except SystemFault Unit :=
  if disk.isDirectory id then .error .isDirectory else disk.demandChange id

/-- Opens what is there to be written to. -/
def openExisting (disk : Disk) (path : String) : Except SystemFault NodeId := do
  let id ← disk.locate path
  disk.demandWrite id
  return id

/-- Opens a file to be written to and creates it if it is not there. -/
def openOrCreate (disk : Disk) (path : String) : Except SystemFault (NodeId × Disk) := do
  match ← disk.findToCreate path with
  | .node id =>
    disk.demandWrite id
    return (id, disk)
  | .vacancy directory name =>
    disk.demandChange directory
    return disk.addNamed directory name (.file [])

/-- The disk with a file emptied. -/
def truncate (disk : Disk) (id : NodeId) : Disk :=
  if disk.isFile id then disk.setBytes id [] else disk

/-- Opens a path as a mode asks: only reading leaves a missing file missing, and
only writing empties it. -/
def openNode (disk : Disk) (mode : AccessMode) (path : String) :
    Except SystemFault (NodeId × Disk) :=
  match mode with
  | .read => (disk.locate path).map fun id => (id, disk)
  | .write => (disk.openOrCreate path).map fun opened => (opened.1, opened.2.truncate opened.1)
  | .append | .readWrite => disk.openOrCreate path

/-- The contents of a file that is read as a whole. -/
def readWhole (disk : Disk) (path : String) : Except SystemFault Bytes := do
  let id ← disk.locate path
  disk.readAt id 0 (disk.size id)

end Disk

end ArchiveVfs
