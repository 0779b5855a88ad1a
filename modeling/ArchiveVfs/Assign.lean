import ArchiveVfs.Environment
import ArchiveVfs.Error
import ArchiveVfs.Table
import ArchiveVfs.Uri.NativePath

/-!
# Assigns

An assign gives a name to a location, so that `home:a.txt` stands for a file
below whatever `home` expands to. A step replaces the leading token of a path,
the name before the first colon, by its location; `resolve` takes steps until
none applies, eight at most.
-/

namespace ArchiveVfs

open Text

/-- Locations under the names that expand to them. -/
abbrev Assigns := Table String

namespace Assigns

/-- The number of steps after which expansion counts as cyclic. -/
def maxDepth : Nat := 8

/-- The characters of tokens. -/
def isTokenChar (c : Char) : Bool :=
  c.isAlphanum || c = '_' || c = '-'

/-- Tokens have two characters or more, so that a drive letter is none. -/
def isToken (name : List Char) : Bool :=
  2 ≤ name.length && name.all isTokenChar

/-- The leading token of a path and what follows its colon. -/
def splitToken (path : List Char) : Option (List Char × List Char) :=
  (cutFirst ':' path).filter fun parts => isToken parts.1

/-- Whether a location needs a slash before what is put behind it. -/
def needsSlash (location : List Char) : Bool :=
  location.getLast? ≠ some '/' && location.getLast? ≠ some ':'

/-- A location with the rest of a path behind it; an empty rest leaves the
location as it is. -/
def joinRest (location rest : List Char) : List Char :=
  if rest.isEmpty then location
  else location ++ (if needsSlash location then ['/'] else []) ++ dropLeading '/' rest

/-- Replaces the leading token, if it names an assign. -/
def step? (assigns : Assigns) (path : List Char) : Option (List Char) :=
  match splitToken path with
  | none => none
  | some (name, rest) =>
    (assigns.get? (String.ofList name)).map fun location => joinRest location.toList rest

/-- Takes steps until none applies, unless more than `limit` are needed. -/
def resolveWithin (assigns : Assigns) (limit : Nat) (path : List Char) : Option (List Char) :=
  match assigns.step? path with
  | none => some path
  | some next =>
    match limit with
    | 0 => none
    | limit + 1 => assigns.resolveWithin limit next

/-- The path with its leading tokens expanded. -/
def resolve (assigns : Assigns) (path : String) : Except Error String :=
  match assigns.resolveWithin maxDepth path.toList with
  | some location => .ok (String.ofList location)
  | none => .error (.cyclicAssign path maxDepth)

/-- The location under a name. -/
def location (assigns : Assigns) (name : String) : Except Error String :=
  match assigns.get? name with
  | some location => .ok location
  | none => .error (.unknownAssign name)

/-- The written URI of a directory, with a slash at its end. -/
def directoryLocation (environment : Environment) (directory : String) : String :=
  let written := (Uri.ofNativePath environment.currentDirectory directory).render
  if written.toList.getLast? = some '/' then written else written ++ "/"

/-- The assigns with those that every server starts with: the root directory and
its aliases, and the directories of the program, of temporary files and of the
user. -/
def withStandard (assigns : Assigns) (environment : Environment) (root : String) : Assigns :=
  let program := (environment.programDirectory.map (directoryLocation environment)).getD "root:"
  let assigns := (((assigns.insert "root" (directoryLocation environment root)).insert
    "home" "root:").insert "export" "root:export/").insert "bin" program
  let assigns := assigns.insert "temp"
    (directoryLocation environment environment.temporaryDirectory)
  match environment.userDirectory with
  | some directory => assigns.insert "user" (directoryLocation environment directory)
  | none => assigns

end Assigns

end ArchiveVfs
