import ArchiveVfs.Archive.EntryReader
import ArchiveVfs.Proofs.Deflate.Supplying

/-!
# Readers of sound entries

The reader of an entry whose contents have the recorded size and checksum always stands
at a position of these contents (`EntryReader.At`). Reading hands out what is behind the
position and passing over bytes moves it, in however many steps: no transfer fails, as
none comes to an end early and the checksum is right when the last byte is handed out.
-/

namespace ArchiveVfs

variable {on : Disk → Prop} {disk : Disk} {contents : Bytes}

/-- On these disks the source holds the contents. -/
inductive EntrySource.Holds (on : Disk → Prop) (contents : Bytes) : EntrySource → Prop where
  | stored {data : ArchiveData} {start finish : Nat}
      (hwindow : ∀ disk, on disk → data.window disk start finish = contents) :
      Holds on contents (.stored data start finish)
  | deflated {data : ArchiveData} {start finish : Nat} {supply : Deflate.Supply} {packed : Bytes}
      (hwindow : ∀ disk, on disk → data.window disk start finish = packed)
      (hwhole : (Deflate.inflate packed).fault = none)
      (hbytes : (Deflate.inflate packed).bytes.toList = contents)
      (hsupply : supply.Serves packed) :
      Holds on contents (.deflated data start finish supply)
  | decoded : Holds on contents (.decoded contents)

theorem ArchiveData.window_add (data : ArchiveData) (disk : Disk) (start finish offset : Nat) :
    data.window disk (start + offset) finish = (data.window disk start finish).drop offset := by
  rw [window, window, List.drop_take, List.drop_drop, Nat.sub_sub]

theorem EntrySource.Holds.fewer {source : EntrySource} {fewer : Disk → Prop}
    (h : source.Holds on contents) (hfewer : ∀ disk, fewer disk → on disk) :
    source.Holds fewer contents := by
  cases h with
  | stored hwindow => exact .stored fun disk hdisk => hwindow disk (hfewer disk hdisk)
  | deflated hwindow hwhole hbytes hsupply =>
    exact .deflated (fun disk hdisk => hwindow disk (hfewer disk hdisk)) hwhole hbytes hsupply
  | decoded => exact .decoded

/-- A source hands out some of what is left. -/
theorem EntrySource.Holds.fetch {source : EntrySource} (h : source.Holds on contents)
    (hdisk : on disk) {position count : Nat} (hposition : position < contents.length)
    (hcount : 0 < count) :
    ∃ found next, source.fetch disk position count = (.ok found, next) ∧
      next.Holds on contents ∧ found ≠ [] ∧ found <+: (contents.drop position).take count := by
  have hleft : (contents.drop position).take count ≠ [] := by
    apply List.ne_nil_of_length_pos
    simp only [List.length_take, List.length_drop]
    omega
  cases h with
  | @stored data start finish hwindow =>
    refine ⟨(contents.drop position).take count, .stored data start finish, ?_, .stored hwindow,
      hleft, List.prefix_refl _⟩
    rw [EntrySource.fetch, ArchiveData.window_add, hwindow disk hdisk]
  | decoded =>
    exact ⟨(contents.drop position).take count, .decoded contents, rfl, .decoded, hleft,
      List.prefix_refl _⟩
  | @deflated data start finish supply packed hwindow hwhole hbytes hsupply =>
    have hpiece : (fun offset => (data.window disk (start + offset) finish).take
        Deflate.pieceSize) = Deflate.Supply.pieceOf packed := by
      funext offset
      rw [ArchiveData.window_add, hwindow disk hdisk]
      rfl
    have hwithin : position < (Deflate.inflate packed).bytes.size := by
      rw [← hbytes] at hposition
      simpa using hposition
    obtain ⟨found, next, hread, hnext, hsome, hpart⟩ :=
      Deflate.Supply.read_serves hwhole hsupply hwithin hcount
    rw [hbytes] at hpart
    refine ⟨found, .deflated data start finish next, ?_, .deflated hwindow hwhole hbytes hnext,
      hsome, hpart⟩
    simp only [EntrySource.fetch, hpiece, hread]
    rfl

namespace EntryReader

variable {reader : EntryReader} {position : Nat}

/-- On these disks the reader stands at a position of the contents. -/
structure At (on : Disk → Prop) (contents : Bytes) (position : Nat) (reader : EntryReader) :
    Prop where
  source : reader.source.Holds on contents
  size : reader.size = contents.length
  delivered : reader.delivered = position
  within : position ≤ contents.length
  register : reader.register = Checksum.add Checksum.start (contents.take position)
  expected : ∀ checksum, reader.expected = some checksum → Checksum.ofBytes contents = checksum

theorem At.fewer {fewer : Disk → Prop} (h : reader.At on contents position)
    (hfewer : ∀ disk, fewer disk → on disk) : reader.At fewer contents position :=
  ⟨h.source.fewer hfewer, h.size, h.delivered, h.within, h.register, h.expected⟩

theorem At.advance {found : Bytes} {source : EntrySource} (h : reader.At on contents position)
    (hsource : source.Holds on contents) (hpart : found <+: contents.drop position) :
    ({ reader with source }.advance found).At on contents (position + found.length) := by
  obtain ⟨rest, hrest⟩ := hpart
  have hlength := congrArg List.length hrest
  simp only [List.length_append, List.length_drop] at hlength
  have hwithin := h.within
  refine ⟨hsource, h.size, ?_, by omega, ?_, h.expected⟩
  · show reader.delivered + found.length = position + found.length
    rw [h.delivered]
  · show Checksum.add reader.register found = _
    rw [h.register, ← Checksum.add_append, List.take_add, ← hrest, List.take_left]

/-- At the end of the contents their checksum is right. -/
theorem At.checksum (h : reader.At on contents contents.length) : reader.checksumFault? = none := by
  rw [checksumFault?]
  cases hexpected : reader.expected with
  | none => rfl
  | some expected =>
    have hsum := h.expected expected hexpected
    have hregister := h.register
    rw [List.take_length] at hregister
    simp only [hregister]
    exact if_pos hsum

/-- A transfer hands out some of what is left, if any is left and wanted. -/
theorem At.read (h : reader.At on contents position) (hdisk : on disk) (count : Nat) :
    ∃ found next, reader.read disk count = (.ok found, next) ∧
      next.At on contents (position + found.length) ∧
      found <+: (contents.drop position).take count ∧
      (found = [] → (contents.drop position).take count = []) := by
  obtain ⟨source, size, delivered, expected, register⟩ := reader
  obtain rfl : size = contents.length := h.size
  obtain rfl : delivered = position := h.delivered
  have hwithin := h.within
  rw [EntryReader.read]
  dsimp only
  by_cases hdone : min count (contents.length - delivered) = 0
  · rw [if_pos hdone]
    refine ⟨[], _, rfl, h, List.nil_prefix, ?_⟩
    intro _
    apply List.eq_nil_of_length_eq_zero
    simp only [List.length_take, List.length_drop]
    exact hdone
  · rw [if_neg hdone]
    have hcut : (contents.drop delivered).take (min count (contents.length - delivered))
        = (contents.drop delivered).take count := by
      rw [← List.length_drop, ← List.take_eq_take_min]
    obtain ⟨found, source, hfetch, hsource, hsome, hpart⟩ := h.source.fetch hdisk
      (show delivered < contents.length by omega) (Nat.pos_of_ne_zero hdone)
    rw [hcut] at hpart
    have hnext := h.advance hsource (hpart.trans (List.take_prefix _ _))
    rw [hfetch]
    cases found with
    | nil => exact absurd rfl hsome
    | cons first more =>
      refine ⟨first :: more, _, ?_, hnext, hpart, fun hnil => absurd hnil (by simp)⟩
      dsimp only
      have hmoved := hnext.delivered
      have hsize := hnext.size
      generalize EntryReader.advance _ (first :: more) = next at hnext hmoved hsize ⊢
      rw [hmoved, hsize]
      by_cases hend : delivered + (first :: more).length = contents.length
      · rw [hend] at hnext
        rw [if_pos hend, hnext.checksum]
      · rw [if_neg hend]

theorem append_take_drop {found whole : Bytes} {count : Nat} (h : found <+: whole.take count) :
    found ++ (whole.drop found.length).take (count - found.length) = whole.take count := by
  obtain ⟨rest, hrest⟩ := h
  have hbehind := congrArg (List.drop found.length) hrest
  rw [List.drop_left, List.drop_take] at hbehind
  rw [← hrest, ← hbehind]

theorem At.fillFrom {rounds count : Nat} (h : reader.At on contents position) (hdisk : on disk)
    (hrounds : count ≤ rounds) (found : Bytes) :
    ∃ next, reader.fillFrom disk rounds count found
        = (.ok (found ++ (contents.drop position).take count), next) ∧
      next.At on contents (position + ((contents.drop position).take count).length) := by
  induction rounds generalizing reader position count found with
  | zero =>
    obtain rfl : count = 0 := by omega
    exact ⟨reader, by simp [EntryReader.fillFrom], by simpa using h⟩
  | succ rounds ih =>
    obtain ⟨more, next, hread, hnext, hpart, hnone⟩ := h.read hdisk count
    rw [EntryReader.fillFrom, hread]
    cases more with
    | nil =>
      rw [hnone rfl]
      exact ⟨next, by simp, by simpa using hnext⟩
    | cons first more =>
      have hsplit : (first :: more) ++ (contents.drop (position + (first :: more).length)).take
          (count - (first :: more).length) = (contents.drop position).take count := by
        rw [← List.drop_drop]
        exact append_take_drop hpart
      obtain ⟨last, hfill, hlast⟩ := ih hnext
        (show count - (first :: more).length ≤ rounds by simp; omega) (found ++ (first :: more))
      refine ⟨last, ?_, ?_⟩
      · dsimp only
        rw [hfill, List.append_assoc, hsplit]
      · rw [← hsplit, List.length_append, ← Nat.add_assoc]
        exact hlast

/-- Filling hands out what was asked for, up to the end of the contents. -/
theorem At.fill (h : reader.At on contents position) (hdisk : on disk) (count : Nat) :
    ∃ next, reader.fill disk count = (.ok ((contents.drop position).take count), next) ∧
      next.At on contents (position + ((contents.drop position).take count).length) :=
  h.fillFrom hdisk (Nat.le_refl count) []

theorem At.skipFrom {rounds count : Nat} (h : reader.At on contents position) (hdisk : on disk)
    (hrounds : count ≤ rounds) (hcount : position + count ≤ contents.length) :
    ∃ next, reader.skipFrom disk rounds count = (.ok (), next) ∧
      next.At on contents (position + count) := by
  induction rounds generalizing reader position count with
  | zero =>
    obtain rfl : count = 0 := by omega
    exact ⟨reader, rfl, h⟩
  | succ rounds ih =>
    obtain ⟨found, next, hread, hnext, hpart, hnone⟩ := h.read hdisk (min count skipSize)
    have hfew := hpart.length_le
    rw [List.length_take, List.length_drop] at hfew
    rw [EntryReader.skipFrom, hread]
    cases found with
    | nil =>
      have hzero := congrArg List.length (hnone rfl)
      simp only [List.length_take, List.length_drop, List.length_nil, skipSize] at hzero
      obtain rfl : count = 0 := by omega
      exact ⟨next, rfl, hnext⟩
    | cons first more =>
      obtain ⟨last, hskip, hlast⟩ := ih hnext
        (show count - (first :: more).length ≤ rounds by simp; omega) (by omega)
      refine ⟨last, hskip, ?_⟩
      have hmoved : position + (first :: more).length + (count - (first :: more).length)
          = position + count := by omega
      rw [hmoved] at hlast
      exact hlast

/-- Passing over bytes that are there moves the reader. -/
theorem At.skip (h : reader.At on contents position) (hdisk : on disk) {count : Nat}
    (hcount : position + count ≤ contents.length) :
    ∃ next, reader.skip disk count = (.ok (), next) ∧ next.At on contents (position + count) :=
  h.skipFrom hdisk (Nat.le_refl count) hcount

end EntryReader

end ArchiveVfs
