import ArchiveVfs.Zip.EndRecord

/-!
# Zip containers

A container ends in a record that says where its directory is. The end record is
searched from the end of the data backwards; a candidate that leads to no valid
directory is passed over.
-/

namespace ArchiveVfs.Zip

/-- The records that the first usable of several end records leads to. Without one the
fault is that of the last candidate; a candidate that is cut yields to the fault
before, and one that is only wrong in its directory leaves no fault behind. -/
def recordsAmong (data : Bytes) : (fault : Option Fault) → (candidates : List Nat) →
    Except Fault (List Record)
  | fault, [] => .error (fault.getD (.malformed .noEnd))
  | fault, position :: rest =>
    match EndRecord.read data position with
    | .error unread => recordsAmong data (fault.or (some unread)) rest
    | .ok record =>
      match record.directoryPlace data with
      | .error fault => recordsAmong data (some fault) rest
      | .ok place =>
        match place.records? data with
        | some records => .ok records
        | none => recordsAmong data none rest

/-- The records of a container. -/
def records (data : Bytes) : Except Fault (List Record) :=
  (recordsAmong data none (Bytes.offsetsOf endMark data)).map distinct

/-- A record, and where the data of its entry begin. -/
structure Item extends Record where
  /-- Where the data begin. -/
  dataStart : Nat
  deriving DecidableEq, Repr

/-- The records of a container with the places of their data. -/
def items (data : Bytes) : Except Fault (List Item) := do
  (← records data).mapM fun record => do
    return { record with dataStart := ← record.dataStart data }

end ArchiveVfs.Zip
