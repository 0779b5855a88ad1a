import ArchiveVfs.Archive.EntryReader
import ArchiveVfs.Archive.Index
import ArchiveVfs.Uri.Entry
import ArchiveVfs.Uri.NativePath
import ArchiveVfs.Zip.Unpack

/-!
# Archives

An archive is a zip container that has been indexed. Its files appear below its
mount point. Entries are opened from the index and from the bytes of the container.
-/

namespace ArchiveVfs

/-- An indexed container. -/
structure Archive where
  /-- The file of the container. -/
  uri : Uri
  /-- The local path below which the files appear, without slashes at its end. -/
  mountPoint : String
  /-- The bytes of the container. -/
  data : ArchiveData
  /-- What the container holds. -/
  index : Index

namespace Archive

/-- The largest container that is mapped. -/
def maxMappedSize : Nat := 4294967296

/-- The bytes of a container's file: mapped if wanted and possible, else loaded. -/
def loadData (disk : Disk) (maps : Bool) (node : NodeId) : Except SystemFault ArchiveData :=
  let size := disk.size node
  if maps && 0 < size && size ≤ maxMappedSize && disk.isFile node then .ok (.mapped node size)
  else (disk.readAt node 0 size).map .loaded

/-- Opens and indexes the container at `uri`. -/
def load (disk : Disk) (maps : Bool) (uri mountPoint : Uri) : Except Error Archive := do
  let data ← ((disk.locate uri.nativePath).bind (loadData disk maps)).mapError fun fault =>
    .badArchive uri (.system fault)
  match Zip.items (data.bytes disk) with
  | .error _ => throw (.badArchive uri .malformed)
  | .ok items =>
    return {
      uri
      mountPoint := String.ofList (Text.dropTrailing '/' mountPoint.localPath.toList)
      data
      index := .ofItems items }

/-- The mount point as it is shown. -/
def shownMountPoint (archive : Archive) : String :=
  if archive.mountPoint.toList.isEmpty then "/" else archive.mountPoint

/-- The number of files. -/
def fileCount (archive : Archive) : Nat :=
  archive.index.files.entries.length

/-- What is left of a list behind a part it begins with. -/
def dropPart {α : Type} [DecidableEq α] (part whole : List α) : Option (List α) :=
  if part.isPrefixOf whole then some (whole.drop part.length) else none

/-- The path inside the archive of a local path at or below the mount point. -/
def innerPath (archive : Archive) (localPath : String) : Option String :=
  let path := Text.dropTrailing '/' localPath.toList
  if path = archive.mountPoint.toList then some ""
  else
    match dropPart archive.mountPoint.toList path with
    | some ('/' :: rest) => some (String.ofList (EntryPath.normalChars rest))
    | _ => none

/-- The file at a path inside the archive. -/
def file? (archive : Archive) (path : String) : Option Entry :=
  archive.index.file? path

/-- Whether there is a directory at a path inside the archive. -/
def hasDirectory (archive : Archive) (path : String) : Bool :=
  archive.index.hasDirectory path

/-- The URI of an entry. -/
def entryUri (archive : Archive) (path : String) : Uri :=
  archive.uri.entryOf path

/-- Opens an entry; an encrypted one is decrypted as a whole. -/
def openEntry (archive : Archive) (disk : Disk) (path : String) (password : Option String) :
    Except Error EntryReader := do
  match archive.file? path with
  | none => throw (.notFound (archive.entryUri path))
  | some entry =>
    if entry.encrypted then
      match password with
      | none => throw (.invalidData (.passwordNeeded path))
      | some password =>
        return .ofContents
          (← Zip.unpack (archive.data.bytes disk) entry.path (Text.Utf8.bytesOf password))
    let finish := entry.dataStart + entry.packedSize
    if archive.data.size < finish then throw (.invalidData (.entryOutside path))
    match entry.method with
    | .stored =>
      return .ofStored archive.data entry.dataStart finish entry.size entry.checksum
    | .deflated =>
      return .ofDeflated archive.data entry.dataStart finish entry.size entry.checksum
    | .other number => throw (.invalidData (.unsupportedMethod path number))

end Archive

end ArchiveVfs
