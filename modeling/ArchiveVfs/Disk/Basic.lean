import ArchiveVfs.Bytes
import ArchiveVfs.Disk.Fault
import ArchiveVfs.Table

/-!
# The disk

A disk is a collection of nodes, each with a number of its own: files, directories,
links and devices. Directories give names to nodes. A node outlives its name, so an
open file that is deleted can still be read. Node 0 is the root directory.
-/

namespace ArchiveVfs

/-- The number of a node. -/
abbrev NodeId := Nat

/-- A device that stands among the files. -/
inductive Device where
  /-- Takes any bytes and has none. -/
  | null
  /-- Takes no bytes and hands out zeros. -/
  | full
  /-- Takes any bytes and hands out zeros. -/
  | zero
  deriving DecidableEq, Repr

/-- What a node holds. -/
inductive Content where
  /-- The bytes of a file. -/
  | file (data : Bytes)
  /-- The names in a directory, and the directory that holds it. -/
  | directory (entries : Table NodeId) (parent : NodeId)
  /-- The path that stands for a link. -/
  | link (target : String)
  /-- A device. -/
  | device (kind : Device)
  deriving DecidableEq

/-- A node with its attributes. -/
structure Node where
  /-- What the node holds. -/
  content : Content
  /-- Whether the node is marked read-only: it cannot be written, and names in it stay. -/
  readOnly : Bool := false
  /-- When the contents were last written, in seconds since 1970. -/
  writeTime : Int := 0
  deriving DecidableEq

/-- The state of a disk. -/
structure Disk where
  /-- The nodes by their numbers. -/
  nodes : Array Node
  /-- The directory that relative paths begin in. -/
  here : NodeId := 0
  /-- The present time, in seconds since 1970. -/
  clock : Int := 0
  deriving DecidableEq

namespace Disk

/-- The number of the root directory. -/
def root : NodeId := 0

/-- A disk with an empty root directory. -/
def blank : Disk where
  nodes := #[{ content := .directory .empty root }]

instance : Inhabited Disk := ⟨blank⟩

/-- What a node holds. -/
def content? (disk : Disk) (id : NodeId) : Option Content :=
  disk.nodes[id]?.map (·.content)

/-- The names in a directory. -/
def entries? (disk : Disk) (id : NodeId) : Option (Table NodeId) :=
  match disk.content? id with
  | some (.directory entries _) => some entries
  | _ => none

/-- Whether the node is a directory. -/
def isDirectory (disk : Disk) (id : NodeId) : Bool :=
  (disk.entries? id).isSome

/-- Whether the node is a file. -/
def isFile (disk : Disk) (id : NodeId) : Bool :=
  match disk.content? id with
  | some (.file _) => true
  | _ => false

/-- Whether the node is marked read-only. -/
def isMarked (disk : Disk) (id : NodeId) : Bool :=
  (disk.nodes[id]?.map (·.readOnly)).getD false

/-- Refuses to change a node that is marked read-only; the names in a directory are part
of the directory. -/
def demandChange (disk : Disk) (id : NodeId) : Except SystemFault Unit :=
  if disk.isMarked id then .error .denied else .ok ()

/-- The disk with one node changed. -/
def update (disk : Disk) (id : NodeId) (change : Node → Node) : Disk :=
  { disk with nodes := disk.nodes.modify id change }

/-- The disk with one more node, and the number of that node. -/
def add (disk : Disk) (content : Content) : NodeId × Disk :=
  (disk.nodes.size,
    { disk with nodes := disk.nodes.push { content, writeTime := disk.clock } })

/-- A directory's node with its names changed at some time. -/
def Node.withEntries (change : Table NodeId → Table NodeId) (time : Int) (node : Node) : Node :=
  match node.content with
  | .directory entries parent =>
    { node with content := .directory (change entries) parent, writeTime := time }
  | _ => node

/-- The disk with a new node under `name` in `directory`, and the number of that
node. -/
def addNamed (disk : Disk) (directory : NodeId) (name : String) (content : Content) :
    NodeId × Disk :=
  let (id, disk) := disk.add content
  (id, disk.update directory (Node.withEntries (·.insert name id) disk.clock))

/-- The disk with a name taken out of a directory. -/
def dropName (disk : Disk) (directory : NodeId) (name : String) : Disk :=
  disk.update directory (Node.withEntries (·.erase name) disk.clock)

end Disk

end ArchiveVfs
