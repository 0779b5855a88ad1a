import ArchiveVfs.Proofs.Archive.EntryCursor
import ArchiveVfs.Proofs.Stream.Serving

/-!
# Streams that deliver their bytes

A stream over memory, over a file or over a sound entry `Delivers` its data on all disks that
leave them as they are: a read finds what is behind the position and moves behind it. Loops
over a stream need to know no more of it.
-/

namespace ArchiveVfs

namespace Bytes

variable {data found : Bytes} {position chunk : Nat}

/-- Where nothing is found though something is wanted, nothing is left. -/
theorem drop_eq_nil_of_take (hchunk : 0 < chunk) (hnone : (data.drop position).take chunk = []) :
    data.drop position = [] := by
  rcases List.take_eq_nil_iff.1 hnone with hzero | hnil
  · omega
  · exact hnil

/-- What is left is what is found and what is left behind it. -/
theorem drop_eq_append (hfound : (data.drop position).take chunk = found) :
    data.drop position = found ++ data.drop (position + found.length) := by
  rw [← List.drop_drop, ← hfound]
  exact (List.prefix_iff_eq_append.1 (List.take_prefix chunk _)).symm

end Bytes

namespace Stream

/-- On these disks the stream is open to be read, and stands at a position of the data. -/
inductive Delivers (on : Disk → Prop) (data : Bytes) : (position : Nat) → Stream → Prop where
  | memory (uri : Uri) (mode : AccessMode) (isMapped : Bool) {position : Nat}
      (hmode : mode.canRead = true) (hwithin : position ≤ data.length) :
      Delivers on data position (.memory { uri, mode, data, position, isOpen := true, isMapped })
  | file (uri : Uri) (node : NodeId) (mode : AccessMode) (viewSize : Option Nat) {position : Nat}
      (hmode : mode.canRead = true)
      (hdata : ∀ disk, on disk → disk.content? node = some (.file data))
      (hwithin : position ≤ data.length) :
      Delivers on data position
        (.file { uri, mode, node := some node, size := data.length, position, viewSize })
  | entry (uri : Uri) (mode : AccessMode) {reader : EntryReader} {position : Nat}
      (hreader : reader.At on data position) :
      Delivers on data position (.entry { uri, mode, reader := some reader, size := data.length })

namespace Delivers

variable {on : Disk → Prop} {disk : Disk} {data : Bytes} {position : Nat} {stream : Stream}

theorem within (h : stream.Delivers on data position) : position ≤ data.length := by
  cases h with
  | memory _ _ _ _ hwithin => exact hwithin
  | file _ _ _ _ _ _ hwithin => exact hwithin
  | entry _ _ hreader => exact hreader.within

theorem size (h : stream.Delivers on data position) : stream.size = data.length := by
  cases h <;> rfl

theorem position_eq (h : stream.Delivers on data position) : stream.position = position := by
  cases h with
  | memory => rfl
  | file => rfl
  | entry _ _ hreader => exact hreader.delivered

theorem atEnd (h : stream.Delivers on data position) :
    stream.atEnd = decide (data.length ≤ position) := by
  rw [Stream.atEnd, h.size, h.position_eq]

/-- A read finds the bytes behind the position, and moves behind them. -/
theorem read (h : stream.Delivers on data position) (hdisk : on disk) (count : Nat) :
    ∃ next, stream.read disk count = (.ok ((data.drop position).take count), next) ∧
      next.Delivers on data (position + ((data.drop position).take count).length) := by
  have hmoved : position + ((data.drop position).take count).length ≤ data.length := by
    have hwithin := h.within
    rw [List.length_take, List.length_drop]
    omega
  cases h with
  | memory uri mode isMapped hmode =>
    refine ⟨_, ?_, .memory uri mode isMapped hmode hmoved⟩
    simp only [Stream.read, MemoryStream.read, hmode]
    rfl
  | file uri node mode viewSize hmode hdata =>
    refine ⟨_, ?_, .file uri node mode viewSize hmode hdata hmoved⟩
    by_cases hzero : count = 0
    · subst hzero
      simp only [Stream.read, FileStream.read, hmode]
      rfl
    · simp only [Stream.read, FileStream.read, hmode, if_neg hzero,
        Disk.readAt_of_file (hdata disk hdisk)]
      rfl
  | entry uri mode hreader =>
    obtain ⟨next, hfill, hnext⟩ := hreader.fill hdisk count
    refine ⟨_, ?_, .entry uri mode hnext⟩
    simp only [Stream.read, EntryStream.read, hfill]
    rfl

/-- A read of all from the start finds the data. -/
theorem read_whole (h : stream.Delivers on data 0) (hdisk : on disk) :
    (stream.read disk stream.size).1 = .ok data := by
  obtain ⟨next, hread, _⟩ := h.read hdisk stream.size
  rw [hread, h.size, List.drop_zero, List.take_length]

end Delivers

end Stream

end ArchiveVfs
