import ArchiveVfs.Archive.Basic

/-!
# Mounted archives

Archives are mounted one by one, each URI once. A look-up takes the archive
mounted last that has what is looked for, so later mounts hide earlier ones. While an
archive is being opened or taken out, its written URI stands in a table of
transitions and keeps it from being mounted or taken out a second time.
-/

namespace ArchiveVfs

/-- Where an archive stands between being mounted and not. -/
inductive MountState where
  /-- Not known to the registry. -/
  | unmounted
  /-- Being opened and indexed. -/
  | mounting
  /-- Indexed, and visible to look-ups. -/
  | mounted
  /-- Being taken out. -/
  | unmounting
  deriving DecidableEq, Repr

/-- The mounted archives. -/
structure Mounts where
  /-- The archives, the one mounted last first. -/
  archives : List Archive := []
  /-- What is being mounted or taken out, by written URIs. -/
  transitions : Table MountState := .empty
  /-- Whether archives are mapped. -/
  maps : Bool := true

namespace Mounts

/-- The mounted archive of a URI. -/
def find? (mounts : Mounts) (uri : Uri) : Option Archive :=
  mounts.archives.find? fun archive => archive.uri = uri

/-- Whether the archive is mounted. -/
def isMounted (mounts : Mounts) (uri : Uri) : Bool :=
  (mounts.find? uri).isSome

/-- Whether the archive is being mounted or taken out. -/
def isBusy (mounts : Mounts) (uri : Uri) : Bool :=
  mounts.transitions.contains uri.render

/-- Where the archive of a URI stands. -/
def state (mounts : Mounts) (uri : Uri) : MountState :=
  match mounts.transitions.get? uri.render with
  | some state => state
  | none => if mounts.isMounted uri then .mounted else .unmounted

/-- The registry with a transition begun. -/
def begin (mounts : Mounts) (uri : Uri) (state : MountState) : Mounts :=
  { mounts with transitions := mounts.transitions.insert uri.render state }

/-- The registry with the transition of an archive ended. -/
def finish (mounts : Mounts) (uri : Uri) : Mounts :=
  { mounts with transitions := mounts.transitions.erase uri.render }

/-- Mounts an archive in front of the others: the archive, and the registry that is left
whether it could be opened or not. -/
def tryMount (mounts : Mounts) (disk : Disk) (uri mountPoint : Uri) :
    Except Error Archive × Mounts :=
  if mounts.isBusy uri || mounts.isMounted uri then (.error (.alreadyMounted uri), mounts)
  else
    let mounts := mounts.begin uri .mounting
    match Archive.load disk mounts.maps uri mountPoint with
    | .ok archive =>
      (.ok archive, { mounts with archives := archive :: mounts.archives }.finish uri)
    | .error error => (.error error, mounts.finish uri)

/-- Takes an archive out, and the registry that is left. -/
def tryUnmount (mounts : Mounts) (uri : Uri) : Except Error Unit × Mounts :=
  if mounts.isBusy uri || !mounts.isMounted uri then (.error (.notMounted uri), mounts)
  else
    let mounts := mounts.begin uri .unmounting
    let left := mounts.archives.filter fun archive => archive.uri ≠ uri
    (.ok (), { mounts with archives := left }.finish uri)

/-- The registry after a change that succeeded. -/
def changed {α : Type} : Except Error α × Mounts → Except Error Mounts
  | (.ok _, mounts) => .ok mounts
  | (.error error, _) => .error error

/-- Mounts an archive in front of the others. -/
def mount (mounts : Mounts) (disk : Disk) (uri mountPoint : Uri) : Except Error Mounts :=
  changed (mounts.tryMount disk uri mountPoint)

/-- Takes an archive out. -/
def unmount (mounts : Mounts) (uri : Uri) : Except Error Mounts :=
  changed (mounts.tryUnmount uri)

/-- The mounted archive of a URI, or the archive opened for once, at the directory
that holds it. -/
def findOrLoad (mounts : Mounts) (disk : Disk) (uri : Uri) : Except Error Archive :=
  match mounts.find? uri with
  | some archive => .ok archive
  | none => Archive.load disk mounts.maps uri (uri.parent.getD uri)

/-- The first archive for which a path inside it has what `has` asks for, with that
path. -/
def findWith (mounts : Mounts) (has : Archive → String → Bool) (uri : Uri) :
    Option (Archive × String) :=
  if uri.isFile then
    mounts.archives.findSome? fun archive =>
      ((archive.innerPath uri.localPath).filter (has archive)).map fun path => (archive, path)
  else none

/-- The archive mounted last that has the file, with the path inside it. -/
def findWithFile (mounts : Mounts) (uri : Uri) : Option (Archive × String) :=
  mounts.findWith (fun archive path => (archive.file? path).isSome) uri

/-- The archive mounted last that has the directory, with the path inside it. -/
def findWithDirectory (mounts : Mounts) (uri : Uri) : Option (Archive × String) :=
  mounts.findWith Archive.hasDirectory uri

/-- The URI of the entry that hides a file, or the URI itself. -/
def redirect (mounts : Mounts) (uri : Uri) : Uri :=
  match mounts.findWithFile uri with
  | some (archive, path) => archive.entryUri path
  | none => uri

end Mounts

end ArchiveVfs
