import ArchiveVfs.Proofs.Archive.Entry
import ArchiveVfs.Proofs.Outcome
import ArchiveVfs.Server.Change

/-!
# Entries depend on the bytes of their archive alone

Two disks that show the same bytes of an archive show the same of its entries: reading
(`readEntry_congr`) and the checksum (`sumEntry_congr`). What one transfer reads and
leaves is the same on both, and so by induction what a loop of transfers does.
-/

namespace ArchiveVfs

variable {disk other : Disk}

/-- Both disks show the same bytes of the archive that a source reads. -/
def EntrySource.SameOn (disk other : Disk) : EntrySource → Prop
  | .stored data _ _ => data.bytes disk = data.bytes other
  | .deflated data _ _ _ => data.bytes disk = data.bytes other
  | .decoded _ => True

theorem ArchiveData.window_congr {data : ArchiveData} (h : data.bytes disk = data.bytes other)
    (start finish : Nat) : data.window disk start finish = data.window other start finish := by
  rw [window, window, h]

theorem EntrySource.fetch_congr {source : EntrySource} (h : source.SameOn disk other)
    (position count : Nat) :
    source.fetch disk position count = source.fetch other position count ∧
      (source.fetch other position count).2.SameOn disk other := by
  cases source with
  | stored data start finish =>
    refine ⟨?_, h⟩
    rw [fetch, fetch, ArchiveData.window_congr h]
  | deflated data start finish supply =>
    refine ⟨?_, h⟩
    simp only [fetch, ArchiveData.window_congr h]
  | decoded contents => exact ⟨rfl, trivial⟩

namespace EntryReader

variable {reader : EntryReader}

/-- A transfer leaves the source as it was or as fetching leaves it. -/
theorem source_read (reader : EntryReader) (disk : Disk) (count : Nat) :
    (reader.read disk count).2.source = reader.source ∨
    (reader.read disk count).2.source = (reader.source.fetch disk reader.delivered
      (min count (reader.size - reader.delivered))).2 := by
  rw [read]
  by_cases hdone : min count (reader.size - reader.delivered) = 0
  · left
    simp only [if_pos hdone]
  · right
    simp only [if_neg hdone]
    rcases reader.source.fetch disk reader.delivered
      (min count (reader.size - reader.delivered)) with ⟨_ | _ | ⟨b, more⟩, source⟩
    · rfl
    · rfl
    · show (if _ then _ else _ : Except TransferFault Bytes × EntryReader).2.source = source
      split
      · split <;> rfl
      · rfl

theorem read_congr (h : reader.source.SameOn disk other) (count : Nat) :
    reader.read disk count = reader.read other count ∧
      (reader.read other count).2.source.SameOn disk other := by
  obtain ⟨hfetch, hsame⟩ := EntrySource.fetch_congr h reader.delivered
    (min count (reader.size - reader.delivered))
  constructor
  · rw [read, read, hfetch]
  · rcases source_read reader other count with heq | heq
    · rw [heq]
      exact h
    · rw [heq]
      exact hsame

theorem fillFrom_congr (h : reader.source.SameOn disk other) (rounds count : Nat)
    (found : Bytes) :
    reader.fillFrom disk rounds count found = reader.fillFrom other rounds count found ∧
      (reader.fillFrom other rounds count found).2.source.SameOn disk other := by
  -- every round leaves a source that reads from the same bytes
  induction rounds generalizing reader count found with
  | zero => exact ⟨rfl, h⟩
  | succ rounds ih =>
    obtain ⟨hread, hsame⟩ := read_congr h count
    rw [fillFrom, fillFrom, hread]
    rcases hnext : reader.read other count with ⟨_ | _ | ⟨b, more⟩, next⟩
    · rw [hnext] at hsame
      exact ⟨rfl, hsame⟩
    · rw [hnext] at hsame
      exact ⟨rfl, hsame⟩
    · rw [hnext] at hsame
      exact ih hsame _ _

theorem fill_congr (h : reader.source.SameOn disk other) (count : Nat) :
    reader.fill disk count = reader.fill other count ∧
      (reader.fill other count).2.source.SameOn disk other :=
  fillFrom_congr h count count []

end EntryReader

/-- A read of an entry finds the same on disks that show the same bytes. -/
theorem Stream.read_entry {uri : Uri} {mode : AccessMode} {size : Nat} {reader : EntryReader}
    (hsame : reader.source.SameOn disk other) (chunk : Nat) :
    (Stream.entry { uri, mode, reader := some reader, size }).read disk chunk
      = ((reader.fill other chunk).1.mapError .transfer,
        .entry { uri, mode, reader := some (reader.fill other chunk).2, size }) := by
  rw [← (EntryReader.fill_congr hsame chunk).1]
  rfl

namespace Archive

/-- The contents of an entry that needs no password. -/
def readEntry (archive : Archive) (disk : Disk) (inner : String) : Except Error Bytes := do
  let reader ← archive.openEntry disk inner none
  (reader.fill disk reader.size).1.mapError .transfer

/-- The checksum of an entry that needs no password, `chunk` bytes at a time. -/
def sumEntry (archive : Archive) (disk : Disk) (inner : String) (chunk : Nat) :
    Except Error UInt32 := do
  let reader ← archive.openEntry disk inner none
  Server.checksumRounds disk chunk (reader.size + 1) Checksum.start
    (.entry { uri := archive.entryUri inner, reader := some reader, size := reader.size })

variable {archive : Archive}

/-- The archive shows the bytes it showed on an earlier disk: it keeps them itself, or
they are still the same on the disk. -/
def Unchanged (archive : Archive) (before now : Disk) : Prop :=
  archive.data.isMapped = false ∨ archive.data.bytes now = archive.data.bytes before

theorem Unchanged.bytes_eq (h : archive.Unchanged other disk) :
    archive.data.bytes disk = archive.data.bytes other := by
  rcases h with hloaded | hsame
  · cases hdata : archive.data with
    | mapped node size =>
      rw [hdata] at hloaded
      cases hloaded
    | loaded data => rfl
  · exact hsame

/-- Opening an entry without a password looks at the index alone. -/
theorem openEntry_congr (archive : Archive) (disk other : Disk) (inner : String) :
    archive.openEntry disk inner none = archive.openEntry other inner none := by
  rw [openEntry, openEntry]

/-- The reader of an entry reads from the bytes of the archive. -/
theorem sameOn_of_openEntry {opening : Disk} {inner : String} {password : Option String}
    {reader : EntryReader} (h : archive.data.bytes disk = archive.data.bytes other)
    (hopen : archive.openEntry opening inner password = .ok reader) :
    reader.source.SameOn disk other := by
  obtain ⟨_, _, ⟨_, _, rfl⟩ | ⟨_, _, rfl | rfl⟩⟩ := openEntry_eq_ok hopen
  · trivial
  · exact h
  · exact h

/-- Disks that show the same bytes of an archive show the same contents of entries. -/
theorem readEntry_congr (h : archive.data.bytes disk = archive.data.bytes other)
    (inner : String) : archive.readEntry disk inner = archive.readEntry other inner := by
  rw [readEntry, readEntry, openEntry_congr archive disk other]
  cases hopen : archive.openEntry other inner none with
  | error error => simp only [bind, Except.bind]
  | ok reader =>
    rw [openEntry_congr archive other disk] at hopen
    rw [Outcome.ok_bind, Outcome.ok_bind,
      (EntryReader.fill_congr (sameOn_of_openEntry h hopen) reader.size).1]

theorem checksumRounds_congr {uri : Uri} {size : Nat} {reader : EntryReader}
    (h : reader.source.SameOn disk other) (chunk rounds : Nat) (register : UInt32) :
    Server.checksumRounds disk chunk rounds register
        (.entry { uri, reader := some reader, size })
      = Server.checksumRounds other chunk rounds register
        (.entry { uri, reader := some reader, size }) := by
  induction rounds generalizing reader register with
  | zero => rfl
  | succ rounds ih =>
    have hread (disk : Disk) : (Stream.entry { uri, reader := some reader, size }).read disk chunk
        = (((reader.fill disk chunk).1.mapError .transfer),
          .entry { uri, reader := some (reader.fill disk chunk).2, size }) := rfl
    obtain ⟨hfill, hsame⟩ := EntryReader.fill_congr h chunk
    rw [Server.checksumRounds, Server.checksumRounds, hread, hread, hfill]
    rcases hnext : reader.fill other chunk with ⟨_ | _ | ⟨b, more⟩, next⟩
    · rfl
    · rfl
    · rw [hnext] at hsame
      show (if _ then _ else _) = (if _ then _ else _)
      rw [ih hsame]

/-- Disks that show the same bytes of an archive show the same checksums of entries. -/
theorem sumEntry_congr (h : archive.data.bytes disk = archive.data.bytes other)
    (inner : String) (chunk : Nat) :
    archive.sumEntry disk inner chunk = archive.sumEntry other inner chunk := by
  rw [sumEntry, sumEntry, openEntry_congr archive disk other]
  cases hopen : archive.openEntry other inner none with
  | error error => simp only [bind, Except.bind]
  | ok reader =>
    rw [openEntry_congr archive other disk] at hopen
    rw [Outcome.ok_bind, Outcome.ok_bind,
      checksumRounds_congr (sameOn_of_openEntry h hopen) chunk]

end Archive

end ArchiveVfs
