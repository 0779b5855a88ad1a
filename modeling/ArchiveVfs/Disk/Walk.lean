import ArchiveVfs.Disk.Basic
import ArchiveVfs.Text.Cut

/-!
# Finding nodes by path

A path is a route of names. `walk` follows it from directory to directory, through
links too, until it reaches a node or finds that the last name is vacant. A slash
at the end of a path asks for a directory, as a last name `.` does.
-/

namespace ArchiveVfs.Disk

open Text

/-- A path as names to follow one after the other. -/
structure Route where
  /-- Whether the route begins at the root. -/
  fromRoot : Bool
  /-- The names, none of them empty. -/
  names : List String
  /-- Whether a slash stands at the end. -/
  slashed : Bool
  deriving DecidableEq, Repr

/-- The longest path in bytes. -/
def maxPathSize : Nat := 4095

/-- The longest name in bytes. -/
def maxNameSize : Nat := 255

/-- The number of links that a route may lead through. -/
def maxLinks : Nat := 40

/-- The route that a path spells. -/
def Route.ofText (path : String) : Route where
  fromRoot := path.toList.head? = some '/'
  names := ((path.toList.splitOn '/').filter fun name => !name.isEmpty).map String.ofList
  slashed := path.toList.getLast? = some '/'

/-- The route of a path that the system accepts. -/
def Route.ofPath (path : String) : Except SystemFault Route :=
  if path.toList.contains '\x00' then .error .nulInPath
  else if path.toList.isEmpty then .error .notFound
  else if maxPathSize < path.utf8ByteSize then .error .nameTooLong
  else .ok (.ofText path)

/-- The names of a route, one more for a slash at the end. -/
def Route.steps (route : Route) : List String :=
  if route.slashed then route.names ++ ["."] else route.names

/-- Where a route ends. -/
inductive Place where
  /-- At a node. -/
  | node (id : NodeId)
  /-- In a directory that does not have the last name. -/
  | vacancy (directory : NodeId) (name : String)
  deriving DecidableEq, Repr

/-- The directory that a route begins in. -/
def startOf (disk : Disk) (route : Route) (directory : NodeId) : NodeId :=
  if route.fromRoot then root else if disk.isDirectory directory then directory else root

/-- What a walk does with a link that is the last name. -/
inductive LastLink where
  /-- The link itself is meant. -/
  | keep
  /-- The link is followed. -/
  | follow
  /-- The link is followed to where something may be created. -/
  | create
  deriving DecidableEq, Repr

/-- Why nothing is created where a slash stands at the end, by the place that the
names before the last lead to: the last name is not even looked up. -/
def slashFault (disk : Disk) : Except SystemFault Place → SystemFault
  | .error fault => fault
  | .ok (.vacancy ..) => .notFound
  | .ok (.node id) => if disk.isDirectory id then .isDirectory else .notDirectory

/-- Follows names from the node `id`, through at most `links` links. -/
def walk (disk : Disk) (last : LastLink) (links : Nat) (id : NodeId) (names : List String) :
    Except SystemFault Place :=
  match names with
  | [] => .ok (.node id)
  | name :: rest =>
    match disk.content? id with
    | some (.directory entries parent) =>
      if name = "." then walk disk last links id rest
      else if name = ".." then walk disk last links parent rest
      else if maxNameSize < name.utf8ByteSize then .error .nameTooLong
      else
        match entries.get? name with
        | none => if rest.isEmpty then .ok (.vacancy id name) else .error .notFound
        | some next =>
          match disk.content? next with
          | some (.link target) =>
            if rest.isEmpty && last = .keep then .ok (.node next)
            else
              match links with
              | 0 => .error .tooManyLinks
              | links + 1 =>
                let route := Route.ofText target
                let start := disk.startOf route id
                if rest.isEmpty && last = .create && route.slashed then
                  .error (disk.slashFault (walk disk .follow links start route.names.dropLast))
                else walk disk last links start (route.steps ++ rest)
          | _ => walk disk last links next rest
    | _ => .error .notDirectory
termination_by (links, names.length)

/-- The place that a path leads to; a vacancy only where the path does not end in a
slash. -/
def find (disk : Disk) (last : LastLink) (path : String) : Except SystemFault Place := do
  let route ← Route.ofPath path
  disk.walk last maxLinks (disk.startOf route disk.here) route.steps

/-- The place where the file at a path is or can be created. -/
def findToCreate (disk : Disk) (path : String) : Except SystemFault Place := do
  let route ← Route.ofPath path
  let start := disk.startOf route disk.here
  if route.slashed then
    throw (disk.slashFault (disk.walk .follow maxLinks start route.names.dropLast))
  disk.walk .create maxLinks start route.names

/-- The node that a path leads to, through links. -/
def locate (disk : Disk) (path : String) : Except SystemFault NodeId := do
  match ← disk.find .follow path with
  | .node id => return id
  | .vacancy .. => throw .notFound

/-- Whether a path leads to a file. -/
def fileExists (disk : Disk) (path : String) : Bool :=
  match disk.locate path with
  | .ok id => disk.isFile id
  | .error _ => false

/-- Whether a path leads to a directory. -/
def directoryExists (disk : Disk) (path : String) : Bool :=
  match disk.locate path with
  | .ok id => disk.isDirectory id
  | .error _ => false

end ArchiveVfs.Disk
