import ArchiveVfs.Text.Cut

/-!
# Paths inside archives

A path inside an archive is a sequence of segments with slashes between them.
`normal` brings the names that containers record into this form: backslashes
count as slashes, and segments that are empty or `.` are left out.
-/

namespace ArchiveVfs.EntryPath

open Text

/-- Both kinds of slashes as one. -/
def slash (c : Char) : Char :=
  if c = '\\' then '/' else c

/-- Segments that name something. -/
def isName (segment : List Char) : Bool :=
  !segment.isEmpty && segment ≠ ['.']

/-- The segments of a name that name something. -/
def segments (name : List Char) : List (List Char) :=
  ((name.map slash).splitOn '/').filter isName

/-- A name in normal form, as characters. -/
def normalChars (name : List Char) : List Char :=
  ['/'].intercalate (segments name)

/-- A name in normal form. -/
def normal (name : String) : String :=
  String.ofList (normalChars name.toList)

/-- The directory that holds a path, and the last segment. -/
def split (path : String) : String × String :=
  match cutLast '/' path.toList with
  | some (directory, name) => (String.ofList directory, String.ofList name)
  | none => ("", path)

/-- The directory of a path has a shorter path. -/
theorem length_split_lt {path : String} (h : path.toList ≠ []) :
    (split path).1.toList.length < path.toList.length := by
  rw [split]
  split
  next directory name hcut =>
    rw [String.toList_ofList, (cutLast_eq_some hcut).1, List.length_append, List.length_cons]
    omega
  next => exact List.length_pos_iff.2 h

end ArchiveVfs.EntryPath
