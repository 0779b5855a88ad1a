/-!
# How streams are opened and moved

An access mode decides what a stream permits while it is open; a seek counts
from one of three origins.
-/

namespace ArchiveVfs

/-- How a stream is opened. -/
inductive AccessMode where
  /-- Existing contents are read. -/
  | read
  /-- New contents replace the old ones. -/
  | write
  /-- Every write goes to the end. -/
  | append
  /-- Contents are read and overwritten in place. -/
  | readWrite
  deriving DecidableEq, Repr, Inhabited

namespace AccessMode

/-- Whether the mode permits reading. -/
def canRead : AccessMode → Bool
  | .read | .readWrite => true
  | .write | .append => false

/-- Whether the mode permits writing. -/
def canWrite : AccessMode → Bool
  | .read => false
  | .write | .append | .readWrite => true

/-- The name of the mode in messages. -/
def label : AccessMode → String
  | .read => "Read"
  | .write => "Write"
  | .append => "Append"
  | .readWrite => "ReadWrite"

end AccessMode

/-- The place that the offset of a seek counts from. -/
inductive Origin where
  /-- The start of the stream. -/
  | start
  /-- The present position. -/
  | here
  /-- The end of the stream. -/
  | finish
  deriving DecidableEq, Repr

end ArchiveVfs
