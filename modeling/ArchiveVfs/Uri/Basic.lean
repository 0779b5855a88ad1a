import ArchiveVfs.Text.Cut

/-!
# URIs

A `Uri` holds its components decoded. The empty scheme marks the empty
URI. Local paths are navigated as text: `append` adds a segment,
`fileName` is the last segment and `parent` what lies before it; parents are
strictly shorter, so climbing ends.
-/

namespace ArchiveVfs

open Text

/-- A URI, all components decoded. The default is empty. -/
structure Uri where
  /-- Selects the kind of stream; always in lower case. -/
  scheme : String := ""
  /-- The host of the authority, empty when absent. -/
  host : String := ""
  /-- The port of the authority. -/
  port : Option UInt16 := none
  /-- The path below the authority, or all of an opaque URI. -/
  localPath : String := ""
  /-- Keys with values, in order. -/
  query : List (String × String) := []
  /-- What follows the number sign. -/
  fragment : Option String := none
  deriving DecidableEq, Repr, Inhabited

/-- A text with its ASCII letters in lower case. -/
def lowerCase (s : String) : String :=
  String.ofList (s.toList.map Char.toLower)

namespace Uri

/-- A URI with a scheme, a host and a path alone. -/
def ofParts (scheme host localPath : String) : Uri :=
  { scheme := lowerCase scheme, host, localPath }

/-- Whether this is the empty URI. -/
def isEmpty (uri : Uri) : Bool :=
  uri.scheme.toList.isEmpty

/-- The URI with one more query pair at the end. -/
def withQuery (uri : Uri) (key value : String) : Uri :=
  { uri with query := uri.query ++ [(key, value)] }

/-- The URI with another port. -/
def withPort (uri : Uri) (port : Option UInt16) : Uri :=
  { uri with port }

/-- The URI with another local path. -/
def withLocalPath (uri : Uri) (localPath : String) : Uri :=
  { uri with localPath }

/-- The value of the first query pair with this key. -/
def queryValue (uri : Uri) (key : String) : Option String :=
  (uri.query.find? fun pair => pair.1 = key).map (·.2)

/-- Whether a path needs a slash before a further segment. -/
def needsSlash (path : List Char) : Bool :=
  !path.isEmpty && path.getLast? != some '/'

/-- A path with a segment put behind it, the slashes before the segment dropped. -/
def appendChars (path segment : List Char) : List Char :=
  path ++ (if needsSlash path then ['/'] else []) ++ dropLeading '/' segment

/-- The URI of something inside the directory this one names. -/
def append (uri : Uri) (segment : String) : Uri :=
  uri.withLocalPath (String.ofList (appendChars uri.localPath.toList segment.toList))

/-- The path of the directory that holds `path`, if there is one. -/
def parentChars (path : List Char) : Option (List Char) :=
  match cutLast '/' (dropTrailing '/' path) with
  | none => none
  | some (before, _) =>
    let directory := if before.isEmpty then ['/'] else before
    if directory = path then none else some directory

/-- The URI of the containing directory; the root has none. Only scheme,
host and port are kept beside the path. -/
def parent (uri : Uri) : Option Uri :=
  (parentChars uri.localPath.toList).map fun directory =>
    (ofParts uri.scheme uri.host (String.ofList directory)).withPort uri.port

/-- The last segment of a path, slashes at its end left out of account. -/
def fileNameChars (path : List Char) : List Char :=
  match cutLast '/' (dropTrailing '/' path) with
  | none => dropTrailing '/' path
  | some (_, name) => name

/-- The last segment of the local path. -/
def fileName (uri : Uri) : String :=
  String.ofList (fileNameChars uri.localPath.toList)

end Uri

end ArchiveVfs
