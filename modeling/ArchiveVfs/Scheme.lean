import ArchiveVfs.Stream.Basic

/-!
# Schemes

The scheme of a URI decides which factory makes the streams for it. Schemes are named in
either case. A program may bind a scheme to a factory of its own; here are the factories
that come with the library, and a server is one whose schemes are bound to these.
-/

namespace ArchiveVfs

/-- A kind of stream, and with it the factory that makes such streams. -/
inductive StreamKind where
  /-- Streams over memory. -/
  | memory
  /-- Streams over files. -/
  | file
  /-- Streams over entries of archives, which look their archive up among the mounted ones. -/
  | entry
  deriving DecidableEq, Repr

/-- A closed stream of a kind. -/
def StreamKind.create (kind : StreamKind) (uri : Uri) : Stream :=
  match kind with
  | .memory => .memory { uri }
  | .file => .file { uri }
  | .entry => .entry { uri }

/-- Kinds of streams under their schemes, which are in lower case. -/
abbrev Schemes := Table StreamKind

namespace Schemes

/-- The schemes of files and of archive entries. -/
def standard : Schemes :=
  (Table.empty.insert Uri.fileScheme .file).insert Uri.archiveScheme .entry

/-- Whether the scheme has a kind of stream. -/
def isRegistered (schemes : Schemes) (scheme : String) : Bool :=
  schemes.contains (lowerCase scheme)

/-- Gives a scheme its kind of stream; it must not have one yet. -/
def register (schemes : Schemes) (scheme : String) (kind : StreamKind) : Except Error Schemes :=
  if schemes.isRegistered scheme then .error (.schemeTaken (lowerCase scheme))
  else .ok (schemes.insert (lowerCase scheme) kind)

/-- Takes the kind of stream from a scheme. -/
def unregister (schemes : Schemes) (scheme : String) : Schemes :=
  schemes.erase (lowerCase scheme)

/-- The kind of stream of a scheme. -/
def kindOf (schemes : Schemes) (scheme : String) : Except Error StreamKind :=
  match schemes.get? (lowerCase scheme) with
  | some kind => .ok kind
  | none => .error (.unknownScheme scheme)

end Schemes

end ArchiveVfs
