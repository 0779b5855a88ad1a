import ArchiveVfs.Proofs.Stream.Reached

/-!
# Runs of requests

What a user of a stream sees: requests are made one after the other, each is answered,
and after each the stream shows its state. The place of a stream and its size count as
seen only while it is open.
-/

namespace ArchiveVfs.Stream

/-- A request to a stream: a call, or one that leaves the stream as it is. -/
inductive Request where
  | call (call : Call)
  | flush
  | view

/-- What the users of a stream keep to, as its callers do. -/
def Request.Permitted (stream : Stream) : Request → Prop
  | .call made => made.Permitted stream
  | .flush | .view => True

/-- What a request that succeeds is answered. -/
inductive Reply where
  | done
  | bytes (found : Bytes)
  | view (shown : Option Bytes)
  deriving DecidableEq

/-- The answer to a request. Writes reach the disk at once, so a flush finds nothing to do. -/
def answer (mounts : Mounts) (disk : Disk) (stream : Stream) : Request → Except Error Reply
  | .call (.setMode _) | .call .close | .call .unmap | .flush => .ok .done
  | .call .tryOpen => (stream.tryOpen mounts disk).map fun _ => .done
  | .call (.read count) => (stream.read disk count).1.map .bytes
  | .call (.write new) => (stream.write disk new).map fun _ => .done
  | .call (.seek offset origin) => (stream.seek disk offset origin).1.map fun _ => .done
  | .call .map => (stream.map disk).map fun _ => .done
  | .view => .ok (.view (stream.view? disk))

/-- The stream and the disk after a request. -/
def after (mounts : Mounts) (disk : Disk) (stream : Stream) : Request → Stream × Disk
  | .call call => stream.perform mounts disk call
  | .flush | .view => (stream, disk)

/-- Where an open stream stands. -/
structure Standing where
  position : Nat
  size : Nat
  atEnd : Bool
  deriving DecidableEq

/-- Where the stream stands, while it is open. -/
def standing? (stream : Stream) : Option Standing :=
  if stream.isOpen then
    some { position := stream.position, size := stream.size, atEnd := stream.atEnd }
  else none

/-- What is seen of a request: its answer, and the stream after it. -/
structure Sight where
  answer : Except Error Reply
  mode : AccessMode
  isMapped : Bool
  standing : Option Standing

/-- What is seen of one request. -/
def sight (mounts : Mounts) (disk : Disk) (stream : Stream) (request : Request) : Sight :=
  let next := (stream.after mounts disk request).1
  { answer := stream.answer mounts disk request
    mode := next.mode
    isMapped := next.isMapped
    standing := next.standing? }

/-- What is seen of a run of requests. -/
def sights (mounts : Mounts) (disk : Disk) (stream : Stream) : List Request → List Sight
  | [] => []
  | request :: rest =>
    let next := stream.after mounts disk request
    stream.sight mounts disk request :: next.1.sights mounts next.2 rest

/-- The stream and the disk after a run of requests. -/
def run (mounts : Mounts) (disk : Disk) (stream : Stream) : List Request → Stream × Disk
  | [] => (stream, disk)
  | request :: rest =>
    let next := stream.after mounts disk request
    next.1.run mounts next.2 rest

/-- Along the run every request is permitted. -/
def Permitted (mounts : Mounts) (disk : Disk) (stream : Stream) : List Request → Prop
  | [] => True
  | request :: rest =>
    request.Permitted stream ∧
    (stream.after mounts disk request).1.Permitted mounts (stream.after mounts disk request).2 rest

/-- Along the run a view of the open stream is asked for in mode read only. -/
def MapsInRead (mounts : Mounts) (disk : Disk) (stream : Stream) : List Request → Prop
  | [] => True
  | request :: rest =>
    (request = .call .map → stream.isOpen = true → stream.mode = .read) ∧
    (stream.after mounts disk request).1.MapsInRead mounts (stream.after mounts disk request).2 rest

end ArchiveVfs.Stream
