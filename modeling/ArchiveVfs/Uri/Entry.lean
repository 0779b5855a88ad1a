import ArchiveVfs.Uri.Basic

/-!
# URIs of archive entries

An entry is named by a `zip` URI: host, port and path are those of the
archive file, and the query says which entry is meant.
-/

namespace ArchiveVfs.Uri

/-- The scheme of files on the disk. -/
def fileScheme : String := "file"

/-- The scheme of archive entries. -/
def archiveScheme : String := "zip"

/-- The query key of an entry's path. -/
def entryKey : String := "file"

/-- The query key of an entry's password. -/
def passwordKey : String := "pwd"

/-- Whether the URI is that of a file on the disk. -/
def isFile (uri : Uri) : Bool :=
  uri.scheme = fileScheme

/-- Whether the URI is that of an archive entry. -/
def isEntry (uri : Uri) : Bool :=
  uri.scheme = archiveScheme

/-- The archive file that an entry URI points into. -/
def archiveFile (uri : Uri) : Uri :=
  (ofParts fileScheme uri.host uri.localPath).withPort uri.port

/-- The URI of the entry at `path` of the archive file `archive`. -/
def entryOf (archive : Uri) (path : String) : Uri :=
  ((ofParts archiveScheme archive.host archive.localPath).withPort archive.port).withQuery
    entryKey path

end ArchiveVfs.Uri
