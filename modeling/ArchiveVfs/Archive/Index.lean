import ArchiveVfs.Archive.EntryPath
import ArchiveVfs.Table
import ArchiveVfs.Wildcard
import ArchiveVfs.Zip.Container

/-!
# Indexes of archives

An index holds the files of an archive by their normal paths, and its directories by theirs:
those recorded, those around anything recorded, and the root. Each directory has the names of
what lies in it. Of several files with one path the last counts.
-/

namespace ArchiveVfs

/-- A file of an archive. -/
structure Entry where
  /-- The normal path. -/
  path : String
  /-- Where the packed bytes begin. -/
  dataStart : Nat
  /-- The number of packed bytes. -/
  packedSize : Nat
  /-- The number of bytes of the contents. -/
  size : Nat
  /-- How the bytes are packed. -/
  method : Zip.Method
  /-- The checksum of the contents. -/
  checksum : UInt32
  /-- Whether a password is needed. -/
  encrypted : Bool
  deriving DecidableEq, Repr

/-- The file that an item of a container is. -/
def Entry.ofItem (item : Zip.Item) : Entry where
  path := EntryPath.normal item.name
  dataStart := item.dataStart
  packedSize := item.packedSize
  size := item.size
  method := item.method
  checksum := item.checksum
  encrypted := item.encrypted

/-- The names of what lies in a directory. -/
structure Directory where
  /-- The names of files. -/
  files : Table Unit := .empty
  /-- The names of directories. -/
  directories : Table Unit := .empty
  deriving DecidableEq

/-- The directory with a file of that name. -/
def Directory.addFile (directory : Directory) (name : String) : Directory :=
  { directory with files := directory.files.insert name () }

/-- The directory with a directory of that name. -/
def Directory.addDirectory (directory : Directory) (name : String) : Directory :=
  { directory with directories := directory.directories.insert name () }

/-- The files and directories of an archive. -/
structure Index where
  /-- The files by path. -/
  files : Table Entry := .empty
  /-- The directories by path. -/
  directories : Table Directory := Table.empty.insert "" {}
  deriving DecidableEq

namespace Index

/-- The directories with one at a path, unless it is there. The directories around it come first,
so that the directory that holds it has its name. -/
def makeDirectory (directories : Table Directory) (path : String) : Table Directory :=
  if _hthere : path.toList = [] ∨ directories.contains path = true then directories
  else
    let parts := EntryPath.split path
    ((makeDirectory directories parts.1).adjust parts.1 (·.addDirectory parts.2)).insert path {}
termination_by path.toList.length
decreasing_by exact EntryPath.length_split_lt fun hnil => _hthere (.inl hnil)

/-- The index with a directory and all directories around it. -/
def addDirectory (index : Index) (path : String) : Index :=
  { index with directories := makeDirectory index.directories path }

/-- The index with a file and all directories around it. -/
def addFile (index : Index) (entry : Entry) : Index :=
  let parts := EntryPath.split entry.path
  { files := index.files.insert entry.path entry
    directories := (makeDirectory index.directories parts.1).adjust parts.1 (·.addFile parts.2) }

/-- The index with an item of a container; one without a path is left out. -/
def addItem (index : Index) (item : Zip.Item) : Index :=
  let path := EntryPath.normal item.name
  if path.toList.isEmpty then index
  else if item.isDirectory then index.addDirectory path
  else index.addFile (.ofItem item)

/-- The index of a container's items. -/
def ofItems (items : List Zip.Item) : Index :=
  items.foldl addItem {}

/-- The file at a path. -/
def file? (index : Index) (path : String) : Option Entry :=
  index.files.get? path

/-- Whether there is a directory at a path. -/
def hasDirectory (index : Index) (path : String) : Bool :=
  index.directories.contains path

/-- The names of one kind in a directory, those that match a pattern, in order. -/
def namesIn (index : Index) (kind : Directory → Table Unit) (path pattern : String) :
    List String :=
  match index.directories.get? path with
  | some directory => (kind directory).keys.filter (Wildcard.accepts pattern)
  | none => []

/-- The names of the files in a directory that match a pattern, in order. -/
def listFiles (index : Index) (path pattern : String) : List String :=
  index.namesIn Directory.files path pattern

/-- The names of the directories in a directory that match a pattern, in order. -/
def listDirectories (index : Index) (path pattern : String) : List String :=
  index.namesIn Directory.directories path pattern

end Index

end ArchiveVfs
