import ArchiveVfs.Proofs.Codec.Cursor
import ArchiveVfs.Proofs.Stream.Orderly

/-!
# Who may read what

A stream over memory or over a file hands out its contents in three ways: reads, a view, and
readers placed over it, with a view or without. `Placed` collects all that can come of permitted
requests and of readers in any order, while anybody may change the disk. `Placed.governed` says
which mode each way demands: a read, a mapping of a file and a value read without a view are there
only while the stream is open in a mode that permits reading. A stream over memory is mapped in
every mode (`memory_mapped_unreadable`), and then shows its bytes to whoever asks for the view and
to a reader that wants one.
-/

namespace ArchiveVfs

namespace FileStream

variable {disk later : Disk} {stream next : FileStream}

/-- A view of a file is there only while the stream is open in mode read. -/
def Guarded (stream : FileStream) : Prop :=
  stream.viewSize ≠ none → stream.node ≠ none ∧ stream.mode = .read

namespace Guarded

theorem setMode (h : stream.Guarded) (hclosed : stream.isOpen = false) (mode : AccessMode) :
    (stream.setMode mode).Guarded := by
  intro hview
  have hnone : stream.node = none := by simpa [isOpen] using hclosed
  exact absurd hnone (h hview).1

theorem tryOpen (h : stream.Guarded) (hopen : stream.tryOpen disk = .ok (next, later)) :
    next.Guarded := by
  rw [FileStream.tryOpen] at hopen
  split at hopen
  · cases hopen
  · rename_i hclosed
    split at hopen
    · cases hopen
    · obtain ⟨rfl, _⟩ := Prod.mk.inj (Except.ok.inj hopen)
      intro hview
      have hnone : stream.node = none := by simpa [isOpen] using hclosed
      exact absurd hnone (h hview).1

theorem read {count : Nat} {found : Bytes} (h : stream.Guarded)
    (hread : stream.read disk count = .ok (found, next)) : next.Guarded := by
  rw [FileStream.read] at hread
  cases hnode : stream.node with
  | none =>
    rw [hnode] at hread
    cases hread
  | some node =>
    simp only [hnode] at hread
    split at hread
    · cases hread
    · split at hread
      · obtain ⟨_, rfl⟩ := Prod.mk.inj (Except.ok.inj hread)
        exact h
      · split at hread
        · cases hread
        · obtain ⟨_, rfl⟩ := Prod.mk.inj (Except.ok.inj hread)
          exact fun hview => ⟨by simp, (h hview).2⟩

theorem write {new : Bytes} (h : stream.Guarded)
    (hwrite : stream.write disk new = .ok (next, later)) : next.Guarded := by
  rw [FileStream.write] at hwrite
  cases hnode : stream.node with
  | none =>
    rw [hnode] at hwrite
    cases hwrite
  | some node =>
    simp only [hnode] at hwrite
    split at hwrite
    · cases hwrite
    · split at hwrite
      · cases hwrite
      · obtain ⟨rfl, _⟩ := Prod.mk.inj (Except.ok.inj hwrite)
        exact fun hview => ⟨by simp, (h hview).2⟩

theorem seek {offset : Int} {origin : Origin} (h : stream.Guarded)
    (hseek : stream.seek offset origin = .ok next) : next.Guarded := by
  rw [FileStream.seek] at hseek
  split at hseek
  · cases hseek
  · obtain ⟨_, _, rfl⟩ := Outcome.map_eq_ok.1 hseek
    exact h

theorem map (hmap : stream.map disk = .ok next) : next.Guarded := by
  have hmode := mode_of_map hmap
  obtain ⟨hopen, size, rfl⟩ := map_eq_ok hmap
  exact fun _ => ⟨hopen, hmode⟩

theorem keeps (h : stream.Guarded) : stream.Keeps (fun _ stream => stream.Guarded) disk where
  setMode := h.setMode
  tryOpen _ _ := h.tryOpen
  close hview := absurd rfl hview
  read _ _ _ := h.read
  write _ _ _ := h.write
  seek _ _ _ := h.seek
  map _ := map
  unmap hview := absurd rfl hview

end Guarded

end FileStream

namespace Stream

variable {mounts : Mounts} {disk later : Disk} {stream next : Stream}

/-- What holds of every stream over memory or over a file, whatever becomes of the disk. -/
def Guarded : Stream → Prop
  | memory stream => stream.Settled
  | file stream => stream.Guarded
  | entry _ => False

/-- Every permitted call keeps it. -/
theorem Guarded.perform (h : stream.Guarded) (mounts : Mounts) (disk : Disk) (call : Call)
    (hpermitted : call.Permitted stream) : (stream.perform mounts disk call).1.Guarded := by
  cases stream with
  | memory stream =>
    obtain ⟨next, heq, hnext⟩ := (MemoryStream.Settled.keeps h).perform h mounts disk hpermitted
    rw [heq]
    exact hnext
  | file stream =>
    obtain ⟨next, later, heq, hnext⟩ := (FileStream.Guarded.keeps h).perform h mounts hpermitted
    rw [heq]
    exact hnext
  | entry stream => exact h.elim

theorem Guarded.after (h : stream.Guarded) (mounts : Mounts) (disk : Disk) {request : Request}
    (hpermitted : request.Permitted stream) :
    (stream.after mounts disk request).1.Guarded := by
  cases request with
  | flush => exact h
  | view => exact h
  | call call => exact h.perform mounts disk call hpermitted

theorem Guarded.tryOpen (h : stream.Guarded)
    (hopen : stream.tryOpen mounts disk = .ok (next, later)) : next.Guarded := by
  have hnext := h.perform mounts disk .tryOpen trivial
  rw [Stream.perform, hopen] at hnext
  exact hnext

theorem Guarded.map (h : stream.Guarded) (hmap : stream.map disk = .ok next) : next.Guarded := by
  have hnext := h.perform {} disk .map trivial
  rw [Stream.perform, hmap] at hnext
  exact hnext

/-- The stream is over memory. -/
def IsMemory (stream : Stream) : Prop :=
  ∃ memory, stream = .memory memory

/-- Only a mode that permits it reads. -/
theorem Guarded.canRead_of_read (h : stream.Guarded) {count : Nat} {found : Bytes}
    (hread : (stream.read disk count).1 = .ok found) : stream.mode.canRead = true := by
  cases stream with
  | memory stream =>
    cases hmode : stream.mode.canRead with
    | true => exact hmode
    | false =>
      simp only [Stream.read, MemoryStream.read, hmode] at hread
      cases hopen : stream.isOpen <;> (rw [hopen] at hread; cases hread)
  | file stream =>
    cases hmode : stream.mode.canRead with
    | true => exact hmode
    | false =>
      simp only [Stream.read, FileStream.read, hmode] at hread
      cases hnode : stream.node <;> (rw [hnode] at hread; cases hread)
  | entry stream => exact h.elim

/-- What shows a view is open, in a mode that permits reading or over memory. -/
theorem Guarded.of_view (h : stream.Guarded) {shown : Bytes}
    (hview : stream.view? disk = some shown) :
    stream.isOpen = true ∧ (stream.mode.canRead = true ∨ stream.IsMemory) := by
  cases stream with
  | memory stream =>
    refine ⟨?_, .inr ⟨stream, rfl⟩⟩
    cases hopen : stream.isOpen with
    | true => exact hopen
    | false =>
      have hmapped := (MemoryStream.Settled.closed h hopen).2
      simp [view?, MemoryStream.view?, hmapped] at hview
  | file stream =>
    simp only [view?, FileStream.view?] at hview
    split at hview
    · rename_i node size hnode hsize
      have hmode := (h (by simp [hsize])).2
      exact ⟨by simp [isOpen, FileStream.isOpen, hnode], .inl (by rw [mode, hmode]; rfl)⟩
    · cases hview
  | entry stream => cases hview

/-- What can be mapped is open, in a mode that permits reading or over memory. -/
theorem of_map (hmap : stream.map disk = .ok next) :
    stream.isOpen = true ∧ (stream.mode.canRead = true ∨ stream.IsMemory) := by
  cases stream with
  | memory stream =>
    refine ⟨?_, .inr ⟨stream, rfl⟩⟩
    obtain ⟨inner, hinner, _⟩ := Outcome.map_eq_ok.1 hmap
    rw [MemoryStream.map] at hinner
    by_cases hopen : stream.isOpen = true
    · exact hopen
    · rw [if_neg hopen] at hinner
      cases hinner
  | file stream =>
    obtain ⟨inner, hinner, _⟩ := Outcome.map_eq_ok.1 hmap
    obtain ⟨hopen, _⟩ := FileStream.map_eq_ok hinner
    refine ⟨?_, .inl ?_⟩
    · simpa [isOpen, FileStream.isOpen, Option.isSome_iff_ne_none] using hopen
    · rw [mode, FileStream.mode_of_map hinner]
      rfl
  | entry stream => cases hmap

end Stream

namespace Reader

variable {reader next : Reader} {disk : Disk}

/-- The second reader has come of the first by reads of any number of bytes, whatever their
outcome. -/
inductive Raws (reader : Reader) : Reader → Prop where
  | here : Raws reader reader
  | raw {next : Reader} (disk : Disk) (count : Nat) (h : Raws reader next) :
      Raws reader (next.readRaw disk count).2

/-- A value takes one such read, or two where it has a length field. -/
theorem readBytes_raws (reader : Reader) (disk : Disk) (shape : Shape) :
    reader.Raws (reader.readBytes disk shape).2 := by
  have hfirst : reader.Raws (reader.readRaw disk shape.width).2 := .raw disk shape.width .here
  rw [readBytes]
  rcases hraw : reader.readRaw disk shape.width with ⟨error | data, next⟩
  · rw [hraw] at hfirst
    exact hfirst
  · rw [hraw] at hfirst
    dsimp only
    split
    · rw [readCounted]
      split
      · exact hfirst
      · exact hfirst.raw disk _
    · exact hfirst

theorem read_raws (reader : Reader) (disk : Disk) (shape : Shape) :
    reader.Raws (reader.read disk shape).2 := by
  have hbytes := readBytes_raws reader disk shape
  rw [read]
  rcases hread : reader.readBytes disk shape with ⟨error | data, next⟩
  · rw [hread] at hbytes
    exact hbytes
  · rw [hread] at hbytes
    exact hbytes

/-- A call on a reader. -/
inductive Call where
  | tryOpen
  | close
  | wantView (wanted : Bool)
  | step (step : Step)

/-- The reader after a call. -/
def after (reader : Reader) (mounts : Mounts) (disk : Disk) : Call → Reader
  | .tryOpen => (reader.tryOpen mounts disk).2
  | .close => reader.close disk
  | .wantView wanted => { reader with wantsView := wanted }
  | .step step => (reader.perform disk step).2

/-- Readers over streams, as requests and calls in any order leave them. A reader that is given up
leaves its stream as it stands, for requests and for the next reader. -/
inductive Placed : Reader → Prop where
  | memory (uri : Uri) (data : Bytes) : Placed { stream := .memory { uri, data } }
  | file (uri : Uri) : Placed { stream := .file { uri } }
  | request {reader : Reader} (h : Placed reader) (mounts : Mounts) (disk : Disk)
      (request : Stream.Request) (hpermitted : request.Permitted reader.stream) :
      Placed { stream := (reader.stream.after mounts disk request).1 }
  | call {reader : Reader} (h : Placed reader) (mounts : Mounts) (disk : Disk) (call : Call) :
      Placed (reader.after mounts disk call)

/-! ## What a reader does to its stream -/

theorem guarded_release (h : reader.stream.Guarded) : reader.release.stream.Guarded := by
  rw [release]
  split
  · exact h.perform {} .blank .close trivial
  · exact h

theorem guarded_mapView (h : reader.stream.Guarded) (disk : Disk) :
    (reader.mapView disk).2.stream.Guarded := by
  rw [mapView]
  split
  · cases hmap : reader.stream.map disk with
    | ok stream => exact h.map hmap
    | error error =>
      dsimp only
      split
      · rename_i hok
        cases hok
      · exact h
      · exact h
      · exact guarded_release h
  · exact h

theorem guarded_tryOpen (h : reader.stream.Guarded) (mounts : Mounts) (disk : Disk) :
    (reader.tryOpen mounts disk).2.stream.Guarded := by
  rw [tryOpen]
  split
  · exact h
  · split
    · exact guarded_mapView h disk
    next hopened =>
      have hclosed : reader.stream.isOpen = false := by simpa using hopened
      have hmode : (reader.stream.setMode .read).Guarded :=
        h.perform {} disk (.setMode .read) hclosed
      dsimp only
      split
      · exact hmode
      · rename_i hopen
        refine guarded_mapView ?_ disk
        exact hmode.tryOpen hopen

theorem guarded_leaveView (h : reader.stream.Guarded) (disk : Disk) :
    (reader.leaveView disk).stream.Guarded := by
  rw [leaveView]
  split
  · exact h
  · rename_i cursor size hview
    -- a stream that was open before is moved to where the view was read to
    have hmoved : (if reader.openedStream then reader.stream
        else (reader.stream.seek disk cursor .start).2).Guarded := by
      split
      · exact h
      · exact h.perform {} disk (.seek cursor .start) trivial
    exact hmoved.perform {} disk .unmap trivial

theorem guarded_close (h : reader.stream.Guarded) (disk : Disk) :
    (reader.close disk).stream.Guarded := by
  rw [close]
  split
  · exact guarded_release (guarded_leaveView h disk)
  · exact h

theorem guarded_readRaw (h : reader.stream.Guarded) (disk : Disk) (count : Nat) :
    (reader.readRaw disk count).2.stream.Guarded := by
  rw [readRaw]
  split
  · exact h
  · split
    · rw [readView]
      split
      · exact h
      · split <;> exact h
    · have hstream := h.perform {} disk (.read count) trivial
      rw [Stream.perform] at hstream
      rw [readStream]
      rcases hread : reader.stream.read disk count with ⟨error | data, stream⟩
      · rw [hread] at hstream
        exact hstream
      · rw [hread] at hstream
        dsimp only
        split <;> exact hstream

theorem Raws.guarded (hraws : reader.Raws next) (h : reader.stream.Guarded) :
    next.stream.Guarded := by
  induction hraws with
  | here => exact h
  | raw disk count _ ih => exact guarded_readRaw ih disk count

theorem guarded_after (h : reader.stream.Guarded) (mounts : Mounts) (disk : Disk) (call : Call) :
    (reader.after mounts disk call).stream.Guarded := by
  cases call with
  | tryOpen => exact guarded_tryOpen h mounts disk
  | close => exact guarded_close h disk
  | wantView wanted => exact h
  | step step =>
    -- of the steps only a value touches the stream
    cases step with
    | setOrder order => exact h
    | atEnd => exact h
    | read shape => exact (read_raws reader disk shape).guarded h

theorem Placed.guarded (h : Placed reader) : reader.stream.Guarded := by
  induction h with
  -- both kinds begin closed, without a view
  | memory uri data => exact ⟨Nat.zero_le _, fun _ => ⟨rfl, rfl⟩⟩
  | file uri => exact fun hview => absurd rfl hview
  | request _ mounts disk request hpermitted ih => exact ih.after mounts disk hpermitted
  | call _ mounts disk call ih => exact guarded_after ih mounts disk call

/-! ## What each way to read demands -/

theorem of_readRaw (h : reader.stream.Guarded) {count : Nat} {data : Bytes}
    (hread : (reader.readRaw disk count).1 = .ok data) :
    reader.stream.isOpen = true ∧
      (reader.stream.mode.canRead = true ∨ (reader.stream.IsMemory ∧ reader.isMapped = true)) := by
  rw [readRaw] at hread
  split at hread
  · cases hread
  · split at hread
    · rename_i cursor size hview
      rw [readView] at hread
      cases hshown : reader.stream.view? disk with
      | none =>
        rw [hshown] at hread
        cases hread
      | some shown =>
        obtain ⟨hopen, hmode | hmemory⟩ := h.of_view hshown
        · exact ⟨hopen, .inl hmode⟩
        · exact ⟨hopen, .inr ⟨hmemory, by rw [isMapped, hview]; rfl⟩⟩
    · rw [readStream] at hread
      rcases hstream : reader.stream.read disk count with ⟨error | found, stream⟩
      · rw [hstream] at hread
        cases hread
      · have hfound : (reader.stream.read disk count).1 = .ok found := by rw [hstream]
        exact ⟨Stream.isOpen_of_read hfound, .inl (h.canRead_of_read hfound)⟩

/-- A value begins with bytes that are read. -/
theorem readRaw_of_read {shape : Shape} {value : Value}
    (hread : (reader.read disk shape).1 = .ok value) :
    ∃ data, (reader.readRaw disk shape.width).1 = .ok data := by
  rw [read, readBytes] at hread
  rcases hraw : reader.readRaw disk shape.width with ⟨error | data, next⟩
  · rw [hraw] at hread
    cases hread
  · exact ⟨data, rfl⟩

/-- What the mode and the openness of the stream decide. -/
structure Governed (reader : Reader) : Prop where
  /-- A read takes an open stream in a mode that permits reading. -/
  read : ∀ disk count found, (reader.stream.read disk count).1 = .ok found →
    reader.stream.isOpen = true ∧ reader.stream.mode.canRead = true
  /-- So does a mapping, but for memory. -/
  map : ∀ disk next, reader.stream.map disk = .ok next →
    reader.stream.isOpen = true ∧
      (reader.stream.mode.canRead = true ∨ reader.stream.IsMemory)
  /-- A view is shown only where it could be mapped. -/
  view : ∀ disk shown, reader.stream.view? disk = some shown →
    reader.stream.isOpen = true ∧
      (reader.stream.mode.canRead = true ∨ reader.stream.IsMemory)
  /-- So does a value that a reader reads, but from a view of memory. -/
  value : ∀ disk shape value, (reader.read disk shape).1 = .ok value →
    reader.stream.isOpen = true ∧
      (reader.stream.mode.canRead = true ∨
        (reader.stream.IsMemory ∧ reader.isMapped = true))

/-- The mode governs every way to read, but for views of memory. -/
theorem Placed.governed (h : Placed reader) : reader.Governed where
  read _ _ _ hread := ⟨Stream.isOpen_of_read hread, h.guarded.canRead_of_read hread⟩
  map _ _ hmap := Stream.of_map hmap
  view _ _ hview := h.guarded.of_view hview
  value _ _ _ hvalue := by
    obtain ⟨_, hraw⟩ := readRaw_of_read hvalue
    exact of_readRaw h.guarded hraw

/-- A reader that has opened a stream over one byte, and not asked for a view. -/
def ofOneByte : Reader :=
  { stream := .memory { uri := MemoryStream.anonymous, data := [7], isOpen := true }
    openedStream := true
    isOpen := true }

theorem governed_ofOneByte :
    Placed ofOneByte ∧ ofOneByte.Governed ∧
    (ofOneByte.read .blank .uint8).1 = .ok (.uint8 7) ∧
    ofOneByte.stream.mode.canRead = true := by
  have hplaced : Placed ofOneByte :=
    (Placed.memory MemoryStream.anonymous [7]).call {} .blank .tryOpen
  have hgoverned := hplaced.governed
  have hvalue : (ofOneByte.read .blank .uint8).1 = .ok (.uint8 7) := rfl
  refine ⟨hplaced, hgoverned, hvalue, ?_⟩
  obtain ⟨_, hmode | ⟨_, hmapped⟩⟩ := hgoverned.value .blank .uint8 _ hvalue
  · exact hmode
  · cases hmapped

/-- A stream over one byte that has been opened to append, mapped, and moved to its start. -/
def appendedMemory : Stream :=
  ((Stream.memory { uri := MemoryStream.anonymous, data := [107] }).run {} .blank
    [.call (.setMode .append), .call .tryOpen, .call .map, .call (.seek 0 .start)]).1

/-- The mode does not permit reading, and yet the view shows the byte, and a reader that wants a
view reads it. -/
theorem memory_mapped_unreadable :
    appendedMemory.isOpen = true ∧ appendedMemory.mode.canRead = false ∧
    (appendedMemory.read .blank 1).1.toOption = none ∧
    appendedMemory.view? .blank = some [107] ∧
    ((({ stream := appendedMemory, wantsView := true } : Reader).after {} .blank .tryOpen).read
      .blank .uint8).1 = .ok (.uint8 107) :=
  ⟨rfl, rfl, rfl, rfl, rfl⟩

end Reader

end ArchiveVfs
