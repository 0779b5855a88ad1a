import ArchiveVfs.Disk.Tree
import ArchiveVfs.Server.Basic

/-!
# Questions to the server

Whether files and directories exist, whether they may be written, and what a directory
holds. Where archives come before the disk, a directory that a mounted archive has is
listed from that archive alone, and everything in a mounted archive is read-only.
-/

namespace ArchiveVfs.Server

/-- The mounted archive that hides a file, with the path inside it. -/
def fileArchive? (server : Server) (uri : Uri) : Option (Archive × String) :=
  if server.archivesEnabled then server.mounts.findWithFile uri else none

/-- The mounted archive that hides a directory, with the path inside it. -/
def directoryArchive? (server : Server) (uri : Uri) : Option (Archive × String) :=
  if server.archivesEnabled then server.mounts.findWithDirectory uri else none

/-- Whether a mounted archive has a file or a directory at a location. -/
def archivesHold (server : Server) (uri : Uri) : Bool :=
  (server.fileArchive? uri).isSome || (server.directoryArchive? uri).isSome

/-- Whether the archive of an entry URI has the entry. -/
def entryExists (server : Server) (disk : Disk) (uri : Uri) : Bool :=
  match uri.queryValue Uri.entryKey with
  | none => false
  | some name =>
    match server.mounts.findOrLoad disk uri.archiveFile with
    | .ok archive => (archive.file? (EntryPath.normal name)).isSome
    | .error _ => false

/-- Whether a location has a file. -/
def fileAt (server : Server) (disk : Disk) (uri : Uri) : Bool :=
  if (server.fileArchive? uri).isSome then true
  else if uri.isFile then disk.fileExists uri.nativePath
  else if uri.isEntry then server.entryExists disk uri
  else false

/-- Whether a path leads to a file. -/
def fileExists (server : Server) (disk : Disk) (path : String) : Bool :=
  match server.resolve path with
  | .ok uri => server.fileAt disk uri
  | .error _ => false

/-- Whether a path leads to a directory. -/
def directoryExists (server : Server) (disk : Disk) (path : String) : Bool :=
  match server.resolve path with
  | .ok uri =>
    (server.directoryArchive? uri).isSome || uri.isFile && disk.directoryExists uri.nativePath
  | .error _ => false

/-- Whether what a path leads to cannot be written because it lies in an archive. -/
def isSealed (server : Server) (uri : Uri) : Bool :=
  uri.isEntry || server.archivesHold uri

/-- Whether what a path leads to may not be written. -/
def isReadOnly (server : Server) (disk : Disk) (path : String) : Bool :=
  match server.resolve path with
  | .ok uri => server.isSealed uri || uri.isFile && disk.isReadOnly uri.nativePath
  | .error _ => false

/-- What a listing shows. -/
inductive Listing where
  | files
  | directories
  deriving DecidableEq, Repr

/-- The names at a location that match a pattern. -/
def namesAt (server : Server) (disk : Disk) (uri : Uri) (pattern : String) (listing : Listing) :
    Except Error (List String) :=
  match server.directoryArchive? uri with
  | some (archive, directory) =>
    match listing with
    | .files => .ok (archive.index.listFiles directory pattern)
    | .directories => .ok (archive.index.listDirectories directory pattern)
  | none => do
    let path ← nativePath uri
    match listing with
    | .files => disk.listFiles path pattern
    | .directories => disk.listDirectories path pattern

/-- What a directory holds, as names or as whole URIs. -/
def list (server : Server) (disk : Disk) (path pattern : String) (whole : Bool)
    (listing : Listing) : Except Error (List String) := do
  let uri ← server.resolve path
  let names ← server.namesAt disk uri pattern listing
  return if whole then names.map fun name => (uri.append name).render else names

/-- When a file was last written; for a file of an archive, when the archive was. -/
def writeTime (server : Server) (disk : Disk) (path : String) : Except Error Int := do
  let uri ← server.resolve path
  match server.fileArchive? uri with
  | some (archive, _) => disk.writeTime archive.uri.nativePath
  | none => disk.writeTime (← nativePath uri)

end ArchiveVfs.Server
