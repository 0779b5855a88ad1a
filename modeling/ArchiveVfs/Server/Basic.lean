import ArchiveVfs.Scheme
import ArchiveVfs.Settings

/-!
# The server

A server knows assigns, schemes and mounted archives. It turns a path, which may
begin with an assign, be a URI or be native, into a URI, and makes
the stream that belongs to it: where mounted archives come before the disk and one
of them has the file, that is a stream over its entry.
-/

namespace ArchiveVfs

/-- The state of a server. -/
structure Server where
  /-- The configuration that the server was built with. -/
  settings : Settings
  /-- The surroundings of the run. -/
  environment : Environment
  /-- The assigns. -/
  assigns : Assigns := .empty
  /-- The schemes. -/
  schemes : Schemes := .empty
  /-- The mounted archives. -/
  mounts : Mounts := {}
  /-- Whether mounted archives come before the disk. -/
  archivesEnabled : Bool := true
  /-- Whether the standard archives count as mounted. -/
  standardMounted : Bool := false

namespace Server

/-- What a server is built with beside its settings. -/
structure Equipment where
  /-- Whether the schemes of files and entries are registered. -/
  standardSchemes : Bool := true
  /-- Whether the standard assigns are defined. -/
  standardAssigns : Bool := true
  deriving DecidableEq, Repr

/-- Builds a server. The assigns of the settings come last. -/
def build (settings : Settings) (environment : Environment) (equipment : Equipment := {}) :
    Except Error Server :=
  settings.validate.map fun _ =>
    let standard : Assigns :=
      if equipment.standardAssigns then
        Assigns.withStandard .empty environment (settings.rootDirectory environment)
      else .empty
    { settings
      environment
      assigns := settings.assigns.entries.foldl
        (fun assigns entry => assigns.insert entry.1 entry.2) standard
      schemes := if equipment.standardSchemes then .standard else .empty
      mounts := { maps := settings.mapsArchives }
      archivesEnabled := settings.archivesEnabled }

/-- The root directory. -/
def rootDirectory (server : Server) : String :=
  server.settings.rootDirectory server.environment

/-- The URI that a native path stands for; relative paths lie below the root
directory. -/
def nativeUri (server : Server) (path : String) : Uri :=
  let anchored :=
    if NativePath.isAbsolute path.toList then path
    else String.ofList (NativePath.push server.rootDirectory.toList path.toList)
  Uri.ofNativePath server.environment.currentDirectory anchored

/-- The URI that a path stands for. What is no URI is a native path. -/
def resolve (server : Server) (path : String) : Except Error Uri := do
  let resolved ← server.assigns.resolve path
  match Uri.parse resolved with
  | .ok uri => return uri
  | .error _ =>
    if resolved.toList.isEmpty then throw (.invalidUri (.emptyPath path))
    return server.nativeUri resolved

/-- The URI of the stream for a location: that of an entry if a mounted archive
hides the file and archives are to be looked at. -/
def target (server : Server) (uri : Uri) (throughArchives : Bool) : Uri :=
  if throughArchives && server.archivesEnabled then server.mounts.redirect uri else uri

/-- The closed stream for a location. -/
def streamFor (server : Server) (uri : Uri) (throughArchives : Bool) : Except Error Stream :=
  let uri := server.target uri throughArchives
  (server.schemes.kindOf uri.scheme).map fun kind => kind.create uri

/-- The closed stream for a path. -/
def createStream (server : Server) (path : String) : Except Error Stream := do
  server.streamFor (← server.resolve path) true

/-- The stream for a location, opened, and the disk afterwards. -/
def openStream (server : Server) (disk : Disk) (uri : Uri) (mode : AccessMode)
    (throughArchives : Bool) : Except Error (Stream × Disk) := do
  let stream ← server.streamFor uri throughArchives
  (stream.setMode mode).tryOpen server.mounts disk

/-- The native path of a location on the disk. -/
def nativePath (uri : Uri) : Except Error String :=
  if uri.isFile then .ok uri.nativePath else .error (.invalidUri (.notLocal uri))

end Server

end ArchiveVfs
