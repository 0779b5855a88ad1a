import ArchiveVfs.Text.Percent
import ArchiveVfs.Uri.Basic

/-!
# Written form of URIs

`scheme://host:port/path?key=value&key=value#fragment`, or `scheme:path` when
there is no host and no port and the path is neither empty nor absolute. The
host is written as it is, every other component with percent escapes.
-/

namespace ArchiveVfs.Uri

open Text

/-- Whether the written form has an authority. -/
def hasAuthority (uri : Uri) : Bool :=
  !uri.host.toList.isEmpty || uri.port.isSome || uri.localPath.toList.isEmpty
    || uri.localPath.toList.head? = some '/'

/-- The written port with its colon. -/
def portChars : Option UInt16 → List Char
  | none => []
  | some port => ':' :: Nat.toDigits 10 port.toNat

/-- What stands between the scheme and the path. -/
def authorityChars (uri : Uri) : List Char :=
  if uri.hasAuthority then ':' :: '/' :: '/' :: (uri.host.toList ++ portChars uri.port)
  else [':']

/-- A written query pair. -/
def pairChars (pair : String × String) : List Char :=
  Percent.encode Percent.inQuery pair.1.toList
    ++ '=' :: Percent.encode Percent.inQuery pair.2.toList

/-- The written query with its question mark. -/
def queryChars : List (String × String) → List Char
  | [] => []
  | pairs => '?' :: ['&'].intercalate (pairs.map pairChars)

/-- The written fragment with its number sign. -/
def fragmentChars : Option String → List Char
  | none => []
  | some fragment => '#' :: Percent.encode Percent.inPath fragment.toList

/-- The written form as characters. -/
def renderChars (uri : Uri) : List Char :=
  if uri.isEmpty then []
  else
    uri.scheme.toList ++ uri.authorityChars
      ++ Percent.encode Percent.inPath uri.localPath.toList
      ++ queryChars uri.query ++ fragmentChars uri.fragment

/-- The written form of a URI; the empty one is written as nothing. -/
def render (uri : Uri) : String :=
  String.ofList uri.renderChars

end ArchiveVfs.Uri
