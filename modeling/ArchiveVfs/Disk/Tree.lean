import ArchiveVfs.Disk.Contents
import ArchiveVfs.Error
import ArchiveVfs.Wildcard

/-!
# Directories, names and attributes

What the server asks of the disk beside reading and writing: listings, creating
and deleting, write times and the read-only flag. A refusal names the activity
and the path.
-/

namespace ArchiveVfs.Disk

/-- A refusal of the system as the failure of an activity on a path. -/
def blame {α : Type} (action : Action) (path : String) : Except SystemFault α → Except Error α :=
  Except.mapError (.disk action path)

/-- The names in a directory whose nodes are of one kind and that match a pattern, in
order. -/
def listKind (disk : Disk) (isKind : NodeId → Bool) (path pattern : String) :
    Except Error (List String) :=
  blame .listDirectory path do
    match disk.entries? (← disk.locate path) with
    | some entries =>
      return (entries.entries.filter fun entry =>
        isKind entry.2 && Wildcard.accepts pattern entry.1).map (·.1)
    | none => throw .notDirectory

/-- The names of the files in a directory that match a pattern, in order. -/
def listFiles (disk : Disk) (path pattern : String) : Except Error (List String) :=
  disk.listKind disk.isFile path pattern

/-- The names of the directories in a directory that match a pattern, in order. -/
def listDirectories (disk : Disk) (path pattern : String) : Except Error (List String) :=
  disk.listKind disk.isDirectory path pattern

/-- Creates a directory; its parent has to be there. -/
def createDirectory (disk : Disk) (path : String) : Except Error Disk :=
  blame .createDirectory path do
    let route ← Route.ofPath path
    match ← disk.walk .keep maxLinks (disk.startOf route disk.here) route.names with
    | .node _ => throw .exists
    | .vacancy directory name =>
      disk.demandChange directory
      return (disk.addNamed directory name (.directory .empty directory)).2

/-- The directory that holds the last name of a route, with that name. -/
def holder (disk : Disk) (route : Route) (name : String) :
    Except SystemFault (Table NodeId × NodeId × String) := do
  match ← disk.walk .follow maxLinks (disk.startOf route disk.here) route.names.dropLast with
  | .node id =>
    match disk.entries? id with
    | some entries => return (entries, id, name)
    | none => throw .notDirectory
  | .vacancy .. => throw .notFound

/-- Deletes a file, a link or a device. -/
def deleteFile (disk : Disk) (path : String) : Except Error Disk :=
  blame .deleteFile path do
    let route ← Route.ofPath path
    let name := route.names.getLast?.getD "."
    let (entries, directory, name) ← disk.holder route name
    if name = "." || name = ".." then throw .isDirectory
    if maxNameSize < name.utf8ByteSize then throw .nameTooLong
    match entries.get? name with
    | none => throw .notFound
    | some id =>
      if route.slashed then throw (if disk.isDirectory id then .isDirectory else .notDirectory)
      disk.demandChange directory
      if disk.isDirectory id then throw .isDirectory
      return disk.dropName directory name

/-- Deletes an empty directory. -/
def deleteDirectory (disk : Disk) (path : String) : Except Error Disk :=
  blame .deleteDirectory path do
    let route ← Route.ofPath path
    match route.names.getLast? with
    | none => throw .busy
    | some name =>
      let (entries, directory, name) ← disk.holder route name
      if name = "." then throw .invalid
      if name = ".." then throw .notEmpty
      if maxNameSize < name.utf8ByteSize then throw .nameTooLong
      match entries.get? name with
      | none => throw .notFound
      | some id =>
        disk.demandChange directory
        match disk.entries? id with
        | none => throw .notDirectory
        | some inside =>
          if inside.entries.isEmpty then return disk.dropName directory name
          throw .notEmpty

/-- When a node was last written. -/
def writeTime (disk : Disk) (path : String) : Except Error Int :=
  blame .readWriteTime path do
    match disk.nodes[← disk.locate path]? with
    | some node => return node.writeTime
    | none => throw .notFound

/-- Sets the time of the last write. -/
def setWriteTime (disk : Disk) (path : String) (time : Int) : Except Error Disk :=
  blame .setWriteTime path do
    let id ← disk.openExisting path
    return disk.update id fun node => { node with writeTime := time }

/-- Whether a path leads to something that is marked read-only. -/
def isReadOnly (disk : Disk) (path : String) : Bool :=
  match disk.locate path with
  | .ok id => disk.isMarked id
  | .error _ => false

/-- Sets or clears the read-only mark. -/
def setReadOnly (disk : Disk) (path : String) (readOnly : Bool) : Except Error Disk :=
  blame .readPermissions path do
    let id ← disk.locate path
    return disk.update id fun node => { node with readOnly }

end ArchiveVfs.Disk
