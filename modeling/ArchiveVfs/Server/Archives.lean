import ArchiveVfs.Server.Query

/-!
# Archives of a server

Archives are mounted at the directory that holds them or at another one. The standard
archive of the platform is mounted at the root; that it is missing is no failure, and
mounting and unmounting it take turns.
-/

namespace ArchiveVfs.Server

/-- The URI of an archive's file. -/
def resolveArchive (server : Server) (path : String) : Except Error Uri := do
  let uri ← server.resolve path
  if uri.isFile then return uri
  throw (.invalidUri (.notArchiveFile uri))

/-- Mounts the archive of a URI. -/
def mountUri (server : Server) (disk : Disk) (uri mountPoint : Uri) : Except Error Server :=
  (server.mounts.mount disk uri mountPoint).map fun mounts => { server with mounts }

/-- Mounts an archive at the directory that holds it. -/
def mountArchive (server : Server) (disk : Disk) (path : String) : Except Error Server := do
  let uri ← server.resolveArchive path
  server.mountUri disk uri (uri.parent.getD uri)

/-- Mounts an archive at a directory. -/
def mountArchiveAt (server : Server) (disk : Disk) (path mountPoint : String) :
    Except Error Server := do
  let uri ← server.resolveArchive path
  server.mountUri disk uri (← server.resolve mountPoint)

/-- Takes an archive out. -/
def unmountArchive (server : Server) (path : String) : Except Error Server := do
  let mounts ← server.mounts.unmount (← server.resolveArchive path)
  return { server with mounts }

/-- Whether an archive is mounted. -/
def isArchiveMounted (server : Server) (path : String) : Bool :=
  match server.resolveArchive path with
  | .ok uri => server.mounts.isMounted uri
  | .error _ => false

/-- Where the standard archive of the platform is. -/
def standardArchive (server : Server) : String :=
  "root:export_" ++ server.settings.platform ++ ".zip"

/-- Mounts the standard archive at the root if it is there. -/
def mountStandard (server : Server) (disk : Disk) : Except Error Server := do
  if server.standardMounted then throw .standardArchivesMounted
  let uri ← server.resolveArchive server.standardArchive
  if disk.fileExists uri.nativePath then
    let mounted ← server.mountUri disk uri (← server.resolve "root:")
    return { mounted with standardMounted := true }
  return { server with standardMounted := true }

/-- Takes the standard archive out if it is mounted. -/
def unmountStandard (server : Server) : Except Error Server := do
  unless server.standardMounted do throw .standardArchivesNotMounted
  let uri ← server.resolveArchive server.standardArchive
  if server.mounts.isMounted uri then
    let mounts ← server.mounts.unmount uri
    return { server with mounts, standardMounted := false }
  return { server with standardMounted := false }

end ArchiveVfs.Server
