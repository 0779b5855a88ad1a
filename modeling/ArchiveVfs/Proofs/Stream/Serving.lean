import ArchiveVfs.Proofs.Disk.Contents
import ArchiveVfs.Proofs.Stream.Reached

/-!
# Streams that serve their bytes

A stream that is open to be read and has no view `Serves` its bytes: a read finds them
behind the position and moves behind what it has found, and a view shows all of them.
Every stream that can be read serves its bytes, at once (`serves_of_open`) or after it
has been opened (`serves_of_closed`).
-/

namespace ArchiveVfs

namespace Stream

/-- The stream at another position. -/
def moveTo (position : Nat) : Stream → Stream
  | memory stream => memory { stream with position }
  | file stream => file { stream with position }
  | entry stream => entry stream

/-- The stream with a view of `size` bytes. -/
def withView (size : Nat) : Stream → Stream
  | memory stream => memory { stream with isMapped := true }
  | file stream => file { stream with viewSize := some size }
  | entry stream => entry stream

/-- The stream is open to be read, has no view, and its bytes are `data`. -/
inductive Serves (disk : Disk) (data : Bytes) : Stream → Prop where
  | memory (uri : Uri) (mode : AccessMode) (position : Nat) (hmode : mode.canRead = true)
      (hwithin : position ≤ data.length) :
      Serves disk data (.memory { uri, mode, data, position, isOpen := true })
  | file (uri : Uri) (node : NodeId) (position : Nat)
      (hdata : disk.content? node = some (.file data)) (hwithin : position ≤ data.length) :
      Serves disk data (.file { uri, node := some node, size := data.length, position })

variable {disk : Disk} {data : Bytes} {base : Stream}

theorem moveTo_position (base : Stream) : base.moveTo base.position = base := by
  cases base <;> rfl

theorem moveTo_moveTo (base : Stream) (first second : Nat) :
    (base.moveTo first).moveTo second = base.moveTo second := by
  cases base <;> rfl

namespace Serves

theorem isOpen (h : base.Serves disk data) : base.isOpen = true := by
  cases h <;> rfl

theorem isMapped (h : base.Serves disk data) : base.isMapped = false := by
  cases h <;> rfl

theorem position_le (h : base.Serves disk data) : base.position ≤ data.length := by
  cases h <;> assumption

theorem moveTo (h : base.Serves disk data) {position : Nat} (hwithin : position ≤ data.length) :
    (base.moveTo position).Serves disk data := by
  cases h with
  | memory uri mode _ hmode => exact .memory uri mode position hmode hwithin
  | file uri node _ hdata => exact .file uri node position hdata hwithin

theorem size_moveTo (h : base.Serves disk data) (position : Nat) :
    (base.moveTo position).size = data.length := by
  cases h <;> rfl

theorem position_moveTo (h : base.Serves disk data) (position : Nat) :
    (base.moveTo position).position = position := by
  cases h <;> rfl

theorem atEnd_moveTo (h : base.Serves disk data) (position : Nat) :
    (base.moveTo position).atEnd = decide (data.length ≤ position) := by
  rw [atEnd, h.size_moveTo, h.position_moveTo]

theorem close_moveTo (h : base.Serves disk data) (position : Nat) :
    (base.moveTo position).close = base.close := by
  cases h <;> rfl

/-- A read finds the bytes behind the position, and moves behind them. -/
theorem read (h : base.Serves disk data) (count : Nat) :
    base.read disk count = (.ok ((data.drop base.position).take count),
      base.moveTo (base.position + ((data.drop base.position).take count).length)) := by
  cases h with
  | memory uri mode position hmode =>
    simp only [Stream.read, MemoryStream.read, hmode]
    rfl
  | file uri node position hdata =>
    by_cases hzero : count = 0
    · subst hzero
      rfl
    · simp only [Stream.read, FileStream.read, if_neg hzero, Disk.readAt_of_file hdata]
      rfl

theorem canBeMapped (h : base.Serves disk data) : base.canBeMapped = true := by
  cases h <;> rfl

theorem map (h : base.Serves disk data) : base.map disk = .ok (base.withView data.length) := by
  cases h with
  | memory => rfl
  | file uri node position hdata =>
    have hfile : disk.isFile node = true := Disk.isFile_iff.2 ⟨data, hdata⟩
    have hsize := Disk.size_of_file hdata
    by_cases hempty : data.length = 0
    · simp only [Stream.map, FileStream.map, if_pos hempty]
      rw [hempty]
      rfl
    · simp only [Stream.map, FileStream.map, if_neg hempty, if_pos hfile, hsize]
      rfl

/-- The view has the bytes of the stream. -/
theorem view (h : base.Serves disk data) :
    (base.withView data.length).view? disk = some data := by
  cases h with
  | memory => rfl
  | file uri node position hdata =>
    simp only [withView, Stream.view?, FileStream.view?, Disk.view_of_file hdata]

/-- A stream with a view is moved, and loses the view again. -/
theorem seek_unmap (h : base.Serves disk data) {position : Nat}
    (hwithin : position ≤ data.length) :
    ((base.withView data.length).seek disk position .start).2.unmap = base.moveTo position := by
  have htarget (old : Nat) : seekTarget old data.length position .start = .ok position := by
    rw [seekTarget, if_pos]
    · simp [Origin.target, Origin.base]
    · simp [Origin.target, Origin.base, hwithin]
  cases h with
  | memory uri mode old hmode =>
    simp only [withView, Stream.seek, MemoryStream.seek, MemoryStream.size, htarget]
    rfl
  | file uri node old hdata =>
    simp only [withView, Stream.seek, FileStream.seek, htarget]
    rfl

theorem unmap_close (h : base.Serves disk data) :
    (base.withView data.length).unmap.close = base.close := by
  cases h <;> rfl

end Serves

/-- The bytes that a stream stands over. -/
def contents (disk : Disk) : Stream → Bytes
  | memory stream => stream.data
  | file stream =>
    ((stream.node <|> (disk.locate stream.uri.nativePath).toOption).map disk.bytes).getD []
  | entry _ => []

/-- A stream without a view over memory or over a file, closed or open to be read; over
memory also open to be read and overwritten. -/
def IsReadable (disk : Disk) : Stream → Prop
  | memory stream =>
    stream.isOpen = true → stream.mode.canRead = true ∧ stream.isMapped = false
  | file stream =>
    match stream.node with
    | some node => stream.mode = .read ∧ stream.viewSize = none ∧ disk.isFile node = true
    | none => ∃ node, disk.locate stream.uri.nativePath = .ok node ∧ disk.isFile node = true
  | entry _ => False

variable {stream : Stream}

theorem contents_moveTo (stream : Stream) (position : Nat) :
    (stream.moveTo position).contents disk = stream.contents disk := by
  cases stream <;> rfl

/-- A stream that is open to be read serves its bytes. -/
theorem serves_of_open (hreached : stream.Reached disk) (hreadable : stream.IsReadable disk)
    (hopen : stream.isOpen = true) : stream.Serves disk (stream.contents disk) := by
  have hsettled := hreached.settled
  cases stream with
  | memory stream =>
    obtain ⟨uri, mode, data, position, isOpen, isMapped⟩ := stream
    obtain rfl : isOpen = true := hopen
    obtain ⟨hmode, rfl⟩ : mode.canRead = true ∧ isMapped = false := hreadable rfl
    exact .memory uri mode position hmode hsettled.within
  | file stream =>
    obtain ⟨uri, mode, node, size, position, viewSize⟩ := stream
    cases node with
    | none => cases hopen
    | some node =>
      obtain ⟨rfl, rfl, hfile⟩ : mode = .read ∧ viewSize = none ∧ disk.isFile node = true :=
        hreadable
      obtain ⟨data, hdata⟩ := Disk.isFile_iff.1 hfile
      obtain ⟨rfl, hwithin⟩ := hsettled.held node data rfl hdata
      show Serves disk (disk.bytes node) _
      rw [Disk.bytes_of_file hdata]
      exact .file uri node position hdata hwithin
  | entry stream => exact hsettled.elim

/-- A closed stream that can be read is opened to serve its bytes, and closed again. -/
theorem serves_of_closed (mounts : Mounts) (hreached : stream.Reached disk)
    (hreadable : stream.IsReadable disk) (hclosed : stream.isOpen = false) :
    ∃ base, (stream.setMode .read).tryOpen mounts disk = .ok (base, disk) ∧
      base.Serves disk (stream.contents disk) ∧ base.position = 0 ∧
      base.close.isOpen = false ∧ base.close.isMapped = false ∧
      base.close.contents disk = stream.contents disk := by
  have hsettled := hreached.settled
  cases stream with
  | memory stream =>
    obtain ⟨uri, mode, data, position, isOpen, isMapped⟩ := stream
    obtain rfl : isOpen = false := hclosed
    obtain ⟨_, rfl⟩ : position = 0 ∧ isMapped = false := hsettled.closed rfl
    exact ⟨_, rfl, .memory uri .read 0 rfl (Nat.zero_le _), rfl, rfl, rfl, rfl⟩
  | file stream =>
    obtain ⟨uri, mode, node, size, position, viewSize⟩ := stream
    cases node with
    | some node => cases hclosed
    | none =>
      obtain ⟨_, rfl⟩ : position = 0 ∧ viewSize = none := hsettled.closed rfl
      obtain ⟨node, hlocate, hfile⟩ : ∃ node, disk.locate uri.nativePath = .ok node ∧
          disk.isFile node = true := hreadable
      obtain ⟨data, hdata⟩ := Disk.isFile_iff.1 hfile
      have hsize := Disk.size_of_file hdata
      have hcontents (mode : AccessMode) (size position : Nat) :
          (file { uri, mode, size, position }).contents disk = data := by
        rw [contents]
        simp [hlocate, Except.toOption, Disk.bytes_of_file hdata]
      refine ⟨file { uri, node := some node, size := data.length }, ?_, ?_, rfl, rfl, rfl, ?_⟩
      · simp only [Stream.setMode, Stream.tryOpen, FileStream.setMode, FileStream.tryOpen]
        simp [FileStream.isOpen, Disk.openNode, hlocate, hsize, Except.map]
      · rw [hcontents]
        exact .file uri node 0 hdata (Nat.zero_le _)
      · rw [hcontents]
        exact hcontents .read data.length 0
  | entry stream => exact hsettled.elim

end Stream

end ArchiveVfs
