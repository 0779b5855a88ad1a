import ArchiveVfs.Disk.Walk

/-!
# Building disks

A disk is put together by placing nodes at paths; directories on the way are made.
-/

namespace ArchiveVfs.Disk

/-- The node under a name in a directory. -/
def child? (disk : Disk) (directory : NodeId) (name : String) : Option NodeId :=
  (disk.entries? directory).bind fun entries => entries.get? name

/-- The disk with a node at the end of a route of names below `directory`. -/
def placeBelow (disk : Disk) (directory : NodeId) (content : NodeId → Content) :
    List String → Disk
  | [] => disk
  | [name] => (disk.addNamed directory name (content directory)).2
  | name :: rest =>
    match disk.child? directory name with
    | some next => disk.placeBelow next content rest
    | none =>
      let (next, disk) := disk.addNamed directory name (.directory .empty directory)
      disk.placeBelow next content rest

/-- The disk with a node at a path, made with the number of the directory that holds it. -/
def placeAt (disk : Disk) (path : String) (content : NodeId → Content) : Disk :=
  let route := Route.ofText path
  disk.placeBelow (if route.fromRoot then root else disk.here) content route.names

/-- The disk with a directory at a path, unless something is there. -/
def withDirectory (disk : Disk) (path : String) : Disk :=
  match disk.find .keep path with
  | .ok (.node _) => disk
  | _ => disk.placeAt path (.directory .empty)

/-- The disk with a file at a path. -/
def withFile (disk : Disk) (path : String) (data : Bytes) : Disk :=
  disk.placeAt path fun _ => .file data

/-- The disk with a link at a path. -/
def withLink (disk : Disk) (path target : String) : Disk :=
  disk.placeAt path fun _ => .link target

/-- The disk with a device at a path. -/
def withDevice (disk : Disk) (path : String) (kind : Device) : Disk :=
  disk.placeAt path fun _ => .device kind

/-- The disk with the present directory at a path. -/
def within (disk : Disk) (path : String) : Disk :=
  match disk.locate path with
  | .ok id => { disk with here := id }
  | .error _ => disk

/-- A disk with the usual devices. -/
def usual : Disk :=
  ((blank.withDevice "/dev/null" .null).withDevice "/dev/full" .full).withDevice
    "/dev/zero" .zero

end ArchiveVfs.Disk
