import ArchiveVfs.Archive.Mounts
import ArchiveVfs.Stream.Seek

/-!
# Streams over archive entries

An entry stream reads an entry of an archive, mounted or not, and moves forward
only. A read or a seek that the data spoil may move it on; any other operation that
fails changes nothing.
-/

namespace ArchiveVfs

/-- A stream over an entry of an archive. -/
structure EntryStream where
  /-- The location of the entry. -/
  uri : Uri
  /-- The mode of the present or the next opening. -/
  mode : AccessMode := .read
  /-- The reader of the open entry. -/
  reader : Option EntryReader := none
  /-- The size of the entry opened last. -/
  size : Nat := 0

namespace EntryStream

/-- Whether the stream is open. -/
def isOpen (stream : EntryStream) : Bool :=
  stream.reader.isSome

/-- The number of bytes read and passed over. -/
def position (stream : EntryStream) : Nat :=
  (stream.reader.map (·.delivered)).getD 0

/-- Sets the mode of the next opening, which is permitted only while the stream is closed. -/
def setMode (stream : EntryStream) (mode : AccessMode) : EntryStream :=
  { stream with mode }

/-- The path of the entry that a URI names. -/
def entryPath? (uri : Uri) : Option String :=
  ((uri.queryValue Uri.entryKey).map EntryPath.normal).filter fun path => !path.toList.isEmpty

/-- Opens the entry; only mode read permits it. -/
def tryOpen (stream : EntryStream) (mounts : Mounts) (disk : Disk) : Except Error EntryStream :=
  if stream.isOpen then .error (.alreadyOpen stream.uri)
  else if stream.mode ≠ .read then
    .error (.unsupportedAccess stream.uri stream.mode .openStream)
  else
    match entryPath? stream.uri with
    | none => .error (.invalidUri (.noEntry stream.uri))
    | some path => do
      let archive ← mounts.findOrLoad disk stream.uri.archiveFile
      let reader ← archive.openEntry disk path (stream.uri.queryValue Uri.passwordKey)
      return { stream with reader := some reader, size := reader.size }

/-- Closes the stream; the size of the entry stays. -/
def close (stream : EntryStream) : EntryStream :=
  { stream with reader := none }

/-- A transfer's outcome, and the stream with its reader afterwards. -/
def outcome {α : Type} (stream : EntryStream) (result : Except TransferFault α × EntryReader) :
    Except Error α × EntryStream :=
  (result.1.mapError .transfer, { stream with reader := some result.2 })

/-- Reads `count` bytes, or all that are left. -/
def read (stream : EntryStream) (disk : Disk) (count : Nat) : Except Error Bytes × EntryStream :=
  match stream.reader with
  | none => (.error (.notOpen stream.uri), stream)
  | some reader => stream.outcome (reader.fill disk count)

/-- Refuses to write. -/
def write (stream : EntryStream) : Error :=
  if stream.isOpen then .unsupportedAccess stream.uri stream.mode .writeBytes
  else .notOpen stream.uri

/-- The outcome of passing over the bytes before a target: the reader has to stand there. -/
def landing (stream : EntryStream) (target : Nat)
    (result : Except TransferFault Unit × EntryReader) : Except Error Unit × EntryStream :=
  match result.1 with
  | .error _ => stream.outcome result
  | .ok () =>
    if result.2.delivered = target then stream.outcome result
    else
      (.error (.invalidData (.endedBefore stream.uri result.2.delivered target)),
        { stream with reader := some result.2 })

/-- Moves forward. -/
def seek (stream : EntryStream) (disk : Disk) (offset : Int) (origin : Origin) :
    Except Error Unit × EntryStream :=
  match stream.reader with
  | none => (.error (.notOpen stream.uri), stream)
  | some reader =>
    match seekTarget reader.delivered stream.size offset origin with
    | .error error => (.error error, stream)
    | .ok target =>
      if target < reader.delivered then
        (.error (.backwardSeek stream.uri reader.delivered target), stream)
      else stream.landing target (reader.skip disk (target - reader.delivered))

/-- A transfer that ends at the target is all that there is to a seek. -/
theorem landing_eq_outcome (stream : EntryStream) {target : Nat}
    {result : Except TransferFault Unit × EntryReader}
    (h : result.1 = .ok () → result.2.delivered = target) :
    stream.landing target result = stream.outcome result := by
  obtain ⟨answer | ⟨⟩, reader⟩ := result
  · rfl
  · exact if_pos (h rfl)

/-- Whatever comes of it, a seek leaves the reader that its transfer has left. -/
theorem landing_snd (stream : EntryStream) (target : Nat)
    (result : Except TransferFault Unit × EntryReader) :
    (stream.landing target result).2 = (stream.outcome result).2 := by
  obtain ⟨answer | ⟨⟩, reader⟩ := result
  · rfl
  · rw [landing]
    dsimp only
    split <;> rfl

/-- A seek succeeds only by its transfer. -/
theorem outcome_of_landing {stream next : EntryStream} {target : Nat}
    {result : Except TransferFault Unit × EntryReader}
    (h : stream.landing target result = (.ok (), next)) :
    stream.outcome result = (.ok (), next) := by
  obtain ⟨answer | ⟨⟩, reader⟩ := result
  · exact h
  · rw [landing] at h
    dsimp only at h
    split at h
    · exact h
    · cases (Prod.mk.inj h).1

end EntryStream

end ArchiveVfs
