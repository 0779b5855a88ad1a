import ArchiveVfs.Server.Query

/-!
# Changing files

Copying, creating and deleting, and setting attributes. The source of a copy may lie
in an archive, its target lies on the disk. What lies in a mounted archive cannot be
changed. A failed change may have changed the disk in part, so it comes with the
disk it leaves.
-/

namespace ArchiveVfs.Server

/-- A copy in the middle: both streams and the disk. -/
structure Copying where
  /-- The stream that is read. -/
  source : Stream
  /-- The stream that is written. -/
  target : Stream
  /-- The disk. -/
  disk : Disk

/-- Moves up to `chunk` bytes at a time from the source to the target, until the source
is at its end or has nothing more. Each round moves a byte or is the last. -/
def copyRounds (chunk : Nat) : (rounds : Nat) → Copying → Except Error Unit × Disk
  | 0, copying => (.ok (), copying.disk)
  | rounds + 1, copying =>
    if copying.source.atEnd then (.ok (), copying.disk)
    else
      match copying.source.read copying.disk chunk with
      | (.error error, _) => (.error error, copying.disk)
      | (.ok [], _) => (.ok (), copying.disk)
      | (.ok data, source) =>
        match copying.target.write copying.disk data with
        | .error error => (.error error, copying.disk)
        | .ok (target, disk) => copyRounds chunk rounds { source, target, disk }

/-- The disk with a read-only target made writable. -/
def unlockTarget (disk : Disk) (uri : Uri) : Except Error Disk :=
  if uri.isFile && disk.fileExists uri.nativePath && disk.isReadOnly uri.nativePath then
    disk.setReadOnly uri.nativePath false
  else .ok disk

/-- Copies what one URI names to another. -/
def copyTo (server : Server) (disk : Disk) (source target : Uri) : Except Error Unit × Disk :=
  match unlockTarget disk target with
  | .error error => (.error error, disk)
  | .ok disk =>
    match server.openStream disk source .read true with
    | .error error => (.error error, disk)
    | .ok (source, disk) =>
      match server.openStream disk target .write false with
      | .error error => (.error error, disk)
      | .ok (target, disk) =>
        copyRounds server.settings.copyBufferSize.toNat (source.size + 1)
          { source, target, disk }

/-- Copies a file. A read-only target is made writable first. -/
def copyFile (server : Server) (disk : Disk) (source target : String) :
    Except Error Unit × Disk :=
  match server.resolve source, server.resolve target with
  | .error error, _ => (.error error, disk)
  | .ok _, .error error => (.error error, disk)
  | .ok source, .ok target => server.copyTo disk source target

/-- Takes a stream into a checksum, up to `chunk` bytes at a time. Each round takes a
byte or is the last. -/
def checksumRounds (disk : Disk) (chunk : Nat) :
    (rounds : Nat) → (register : UInt32) → Stream → Except Error UInt32
  | 0, register, _ => .ok (Checksum.finish register)
  | rounds + 1, register, stream =>
    match stream.read disk chunk with
    | (.error error, _) => .error error
    | (.ok [], _) => .ok (Checksum.finish register)
    | (.ok data, stream) =>
      let register := Checksum.add register data
      if stream.atEnd then .ok (Checksum.finish register)
      else checksumRounds disk chunk rounds register stream

/-- The checksum of a file. -/
def checksum (server : Server) (disk : Disk) (path : String) : Except Error UInt32 := do
  let uri ← server.resolve path
  let (stream, disk) ← server.openStream disk uri .read true
  checksumRounds disk server.settings.checksumBufferSize.toNat (stream.size + 1) Checksum.start
    stream

/-- The contents of a file. -/
def contents (server : Server) (disk : Disk) (path : String) : Except Error Bytes := do
  let uri ← server.resolve path
  let (stream, disk) ← server.openStream disk uri .read true
  (stream.read disk stream.size).1

/-- The directories around a path and the path itself that are missing, the outermost
first. -/
def missingDirectories (disk : Disk) (path : List Char) (inner : List String) : List String :=
  if disk.directoryExists (String.ofList path) then inner
  else
    match h : NativePath.directoryOf path with
    | none => String.ofList path :: inner
    | some directory =>
      if directory.isEmpty then String.ofList path :: inner
      else
        have := NativePath.directoryOf_length h
        missingDirectories disk directory (String.ofList path :: inner)
termination_by path.length

/-- Creates directories one after the other, up to the first that fails. -/
def createDirectories (disk : Disk) : List String → Except Error Unit × Disk
  | [] => (.ok (), disk)
  | path :: rest =>
    match disk.createDirectory path with
    | .error error => (.error error, disk)
    | .ok disk => createDirectories disk rest

/-- Creates a directory and all that are missing around it. -/
def createDirectory (server : Server) (disk : Disk) (path : String) : Except Error Unit × Disk :=
  match server.resolve path >>= nativePath with
  | .error error => (.error error, disk)
  | .ok path => createDirectories disk (missingDirectories disk path.toList [])

/-- The native path that an activity changes, unless an archive seals it. -/
def writablePath (server : Server) (path : String) (action : Action) : Except Error String := do
  let uri ← server.resolve path
  if server.isSealed uri then throw (.unsupportedAccess uri .read action)
  nativePath uri

/-- Deletes a file. -/
def deleteFile (server : Server) (disk : Disk) (path : String) : Except Error Disk := do
  disk.deleteFile (← server.writablePath path .deleteFile)

/-- Deletes an empty directory. -/
def deleteDirectory (server : Server) (disk : Disk) (path : String) : Except Error Disk := do
  disk.deleteDirectory (← server.writablePath path .deleteDirectory)

/-- Sets or clears the read-only flag of a file. -/
def setReadOnly (server : Server) (disk : Disk) (path : String) (readOnly : Bool) :
    Except Error Disk := do
  disk.setReadOnly (← server.writablePath path .setReadOnly) readOnly

/-- Sets when a file was last written. -/
def setWriteTime (server : Server) (disk : Disk) (path : String) (time : Int) :
    Except Error Disk := do
  disk.setWriteTime (← server.writablePath path .setWriteTime) time

end ArchiveVfs.Server
