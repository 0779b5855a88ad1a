import ArchiveVfs.Error

/-!
# Reports of failed requests

A request fails over a finding of its own or over an error, perhaps in the middle
of an activity. The report gives what failed and below it the causes, numbered if
there are several.
-/

namespace ArchiveVfs.CommandLine

/-- What a request is in the middle of. -/
inductive Activity where
  | loading (path : String)
  | building
  | mounting (path : String)
  | reading (path : String)
  | copying (source target : String)
  | checksumming (path : String)
  | creating (path : String)
  deriving DecidableEq, Repr

/-- The wording of an activity. -/
def Activity.label : Activity → String
  | .loading path => "loading " ++ path
  | .building => "creating I/O context"
  | .mounting path => "mounting " ++ path
  | .reading path => "reading " ++ path
  | .copying source target => "copying " ++ source ++ " to " ++ target
  | .checksumming path => "checksumming " ++ path
  | .creating path => "creating " ++ path

/-- Why a request fails. -/
inductive Failure where
  /-- There is nothing at the path. -/
  | nothingAt (path : String) (uri : Uri)
  /-- There is no directory at the path. -/
  | noDirectoryAt (path : String)
  /-- An error, perhaps with the activity that it ended. -/
  | because (activity : Option Activity) (error : Error)
  deriving DecidableEq, Repr

namespace Failure

/-- What failed, and the causes of it, the nearest first. -/
def chain : Failure → String × List String
  | nothingAt path uri => (path ++ " does not exist (" ++ uri.render ++ ")", [])
  | noDirectoryAt path => (path ++ " is not a directory", [])
  | because none error => (error.message, error.causes)
  | because (some activity) error => (activity.label, error.message :: error.causes)

/-- A text whose further lines are indented. -/
def indentLines (width : Nat) (text : String) : String :=
  String.ofList <| text.toList.flatMap fun c =>
    if c = '\n' then c :: List.replicate width ' ' else [c]

/-- A cause with its number, right-aligned in five columns. -/
def numbered (number : Nat) (cause : String) : String :=
  let digits := toString number
  String.ofList (List.replicate (5 - digits.length) ' ') ++ digits ++ ": " ++ indentLines 7 cause

/-- The lines that give the causes. -/
def causeLines : List String → List String
  | [cause] => ["    " ++ indentLines 4 cause]
  | causes => causes.mapIdx numbered

/-- The report of a failure. -/
def report (failure : Failure) : String :=
  let causes :=
    match failure.chain.2 with
    | [] => ""
    | causes => "\n\nCaused by:" ++ String.join ((causeLines causes).map ("\n" ++ ·))
  "Error: " ++ failure.chain.1 ++ causes ++ "\n"

/-- Whether the failure is that a file is no zip container. -/
def isMalformedContainer : Failure → Bool
  | because _ (.badArchive _ .malformed) => true
  | _ => false

end Failure

end ArchiveVfs.CommandLine
