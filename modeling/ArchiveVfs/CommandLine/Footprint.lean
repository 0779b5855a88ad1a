import ArchiveVfs.CommandLine.Run

/-!
# What a request looks at

A request reaches the disk only by the paths that it names: those of its command, of
its archives and of its settings. A disk that holds what is there is enough to run it.
-/

namespace ArchiveVfs.CommandLine

/-- The paths that a command names. -/
def Command.paths : Command → List String
  | .probe path => [path]
  | .list path _ _ => [path]
  | .print path => [path]
  | .copy source target => [source, target]
  | .checksum path => [path]
  | .createDirectory path => [path]
  | .assigns => []

/-- The paths that a request names, the standard archive among them. -/
def Request.paths (request : Request) (server : Server) : List String :=
  server.standardArchive :: request.mounts ++ request.command.paths

/-- The native path of what a path leads to; for an entry, that of its archive. -/
def nativePath? (server : Server) (path : String) : Option String :=
  match server.resolve path with
  | .error _ => none
  | .ok uri =>
    if uri.isEntry then some uri.archiveFile.nativePath
    else if uri.isFile then some uri.nativePath
    else none

/-- The native paths that a request looks at, once its settings are known. -/
def Request.nativePaths (request : Request) (environment : Environment) (disk : Disk) :
    List String :=
  match request.settings disk with
  | .error _ => []
  | .ok settings =>
    match Server.build settings environment with
    | .error _ => []
    | .ok server => (request.paths server).filterMap (nativePath? server)

/-- A path after all directories around it, the outermost first. -/
def ancestry (path : String) : List String :=
  Server.missingDirectories .blank path.toList []

/-- Whether two disks hold different files at a path. -/
def fileDiffers (before after : Disk) (path : String) : Bool :=
  after.fileExists path &&
    (!before.fileExists path
      || (before.readWhole path).toOption ≠ (after.readWhole path).toOption)

/-- Whether a disk has a directory at a path where the other has none. -/
def directoryAppears (before after : Disk) (path : String) : Bool :=
  after.directoryExists path && !before.directoryExists path

end ArchiveVfs.CommandLine
