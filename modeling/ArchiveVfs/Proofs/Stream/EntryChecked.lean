import ArchiveVfs.Proofs.Archive.Passing
import ArchiveVfs.Proofs.Server.Probing
import ArchiveVfs.Proofs.Stream.EntryAsCursor

/-!
# Damage is noticed at the end of an entry

An entry may be damaged, and its container may change while it is read. However an open
stream is moved along it, by reads and by seeks forward: if no move fails and the stream
comes to the recorded size, then the bytes it has passed, handed out or passed over, are as
many as recorded, and they have the recorded checksum (`passed_entry_checksum`). Only an
entry without bytes is not checked: whatever checksum is recorded for it, its stream opens
and is at its end (`empty_entry_unchecked`).
-/

namespace ArchiveVfs.EntryStream

/-- A move along an entry. -/
inductive Move where
  | read (count : Nat)
  | seek (offset : Int) (origin : Origin)

/-- The bytes that a seek passes over, as far as its transfers hand them out. -/
def droppedBy (stream : EntryStream) (disk : Disk) (offset : Int) (origin : Origin) : Bytes :=
  match stream.reader with
  | none => []
  | some reader =>
    match seekTarget reader.delivered stream.size offset origin with
    | .ok target => reader.dropped disk (target - reader.delivered)
    | .error _ => []

/-- What a move passes, and the stream afterwards. -/
def passing (stream : EntryStream) (disk : Disk) : Move → Except Error Bytes × EntryStream
  | .read count => stream.read disk count
  | .seek offset origin =>
    let outcome := stream.seek disk offset origin
    (outcome.1.map fun _ => stream.droppedBy disk offset origin, outcome.2)

/-- All that a run of moves passes, in order, and the stream afterwards, if no move fails. Each
move finds the disk of its moment. -/
def passAll (stream : EntryStream) : List (Disk × Move) → Except Error (Bytes × EntryStream)
  | [] => .ok ([], stream)
  | (disk, move) :: rest =>
    match stream.passing disk move with
    | (.error error, _) => .error error
    | (.ok bytes, next) => (next.passAll rest).map fun passed => (bytes ++ passed.1, passed.2)

variable {stream next last : EntryStream} {disk : Disk} {mounts : Mounts} {size : Nat}
  {expected : Option UInt32} {bytes found : Bytes}

/-- The stream is open, and its reader has passed these bytes. -/
def Passed (size : Nat) (expected : Option UInt32) (bytes : Bytes) (stream : EntryStream) : Prop :=
  ∃ reader, stream.reader = some reader ∧ reader.Passed size expected bytes

theorem outcome_eq_ok {α : Type} {result : Except TransferFault α × EntryReader} {value : α}
    (h : stream.outcome result = (.ok value, next)) :
    result = (.ok value, result.2) ∧ next = { stream with reader := some result.2 } := by
  obtain ⟨answer, reader⟩ := result
  obtain ⟨hanswer, hnext⟩ := Prod.mk.inj h
  cases answer with
  | error fault => cases hanswer
  | ok given =>
    obtain rfl : given = value := Except.ok.inj hanswer
    exact ⟨rfl, hnext.symm⟩

namespace Passed

theorem read {count : Nat} (h : stream.Passed size expected bytes)
    (hread : stream.read disk count = (.ok found, next)) :
    next.Passed size expected (bytes ++ found) := by
  obtain ⟨reader, hreader, hpassed⟩ := h
  rw [EntryStream.read, hreader] at hread
  obtain ⟨hfill, rfl⟩ := outcome_eq_ok hread
  exact ⟨_, rfl, hpassed.fill hfill⟩

theorem seek {offset : Int} {origin : Origin} (h : stream.Passed size expected bytes)
    (hseek : stream.seek disk offset origin = (.ok (), next)) :
    next.Passed size expected (bytes ++ stream.droppedBy disk offset origin) := by
  obtain ⟨reader, hreader, hpassed⟩ := h
  simp only [EntryStream.seek, hreader] at hseek
  simp only [droppedBy, hreader]
  cases htarget : seekTarget reader.delivered stream.size offset origin with
  | error error =>
    rw [htarget] at hseek
    cases hseek
  | ok target =>
    rw [htarget] at hseek
    dsimp only at hseek
    by_cases hbackward : target < reader.delivered
    · rw [if_pos hbackward] at hseek
      cases hseek
    · rw [if_neg hbackward] at hseek
      obtain ⟨hskip, rfl⟩ := outcome_eq_ok (outcome_of_landing hseek)
      exact ⟨_, rfl, hpassed.skip hskip⟩

/-- A move that succeeds adds what it passes. -/
theorem passing {move : Move} (h : stream.Passed size expected bytes)
    (hmove : stream.passing disk move = (.ok found, next)) :
    next.Passed size expected (bytes ++ found) := by
  cases move with
  | read count => exact h.read hmove
  | seek offset origin =>
    rcases hseek : stream.seek disk offset origin with ⟨answer, moved⟩
    rw [EntryStream.passing, hseek] at hmove
    obtain ⟨hanswer, rfl⟩ := Prod.mk.inj hmove
    cases answer with
    | error error => cases hanswer
    | ok _ =>
      rw [← Except.ok.inj hanswer]
      exact h.seek hseek

/-- So does a run of moves, of which none fails. -/
theorem passAll {moves : List (Disk × Move)} (h : stream.Passed size expected bytes)
    (hmoves : stream.passAll moves = .ok (found, last)) :
    last.Passed size expected (bytes ++ found) := by
  induction moves generalizing stream bytes found with
  | nil =>
    obtain ⟨rfl, rfl⟩ := Prod.mk.inj (Except.ok.inj hmoves)
    rw [List.append_nil]
    exact h
  | cons step rest ih =>
    obtain ⟨disk, move⟩ := step
    rw [EntryStream.passAll] at hmoves
    rcases hstep : stream.passing disk move with ⟨error | given, next⟩
    · rw [hstep] at hmoves
      cases hmoves
    · rw [hstep] at hmoves
      obtain ⟨⟨later, end_⟩, hrest, hlast⟩ := Outcome.map_eq_ok.1 hmoves
      obtain ⟨rfl, rfl⟩ := Prod.mk.inj hlast
      rw [← List.append_assoc]
      exact ih (h.passing hstep) hrest

end Passed

/-- A stream that has just been opened has passed nothing. -/
theorem passed_of_tryOpen {path : String} {archive : Archive} {entry : Entry}
    (hpath : entryPath? stream.uri = some path)
    (harchive : mounts.findOrLoad disk stream.uri.archiveFile = .ok archive)
    (hfile : archive.file? path = some entry) (hplain : entry.encrypted = false)
    (hopen : stream.tryOpen mounts disk = .ok next) :
    next.Passed entry.size (some entry.checksum) [] := by
  obtain ⟨_, _, reader, hsame, hfound, hreader, rfl⟩ := tryOpen_eq_ok hopen
  rw [hpath] at hsame
  obtain rfl := Option.some.inj hsame
  rw [harchive] at hfound
  obtain rfl := Except.ok.inj hfound
  exact ⟨reader, rfl, Archive.passed_of_openEntry hfile hplain hreader⟩

/-- When no move along an entry that is not encrypted has failed and the stream stands at the
recorded size, it has passed that many bytes. They have the recorded checksum exactly if there
are any, or the recorded checksum is that of no bytes. -/
theorem passed_entry_checksum {path : String} {archive : Archive} {entry : Entry}
    {opened : EntryStream} {moves : List (Disk × Move)}
    (hpath : entryPath? stream.uri = some path)
    (harchive : mounts.findOrLoad disk stream.uri.archiveFile = .ok archive)
    (hfile : archive.file? path = some entry) (hplain : entry.encrypted = false)
    (hopen : stream.tryOpen mounts disk = .ok opened)
    (hmoves : opened.passAll moves = .ok (bytes, last)) (hend : last.position = entry.size) :
    bytes.length = entry.size ∧
    (Checksum.ofBytes bytes = entry.checksum ↔ entry.size ≠ 0 ∨ entry.checksum = 0) := by
  obtain ⟨reader, hreader, hpassed⟩ :=
    (passed_of_tryOpen hpath harchive hfile hplain hopen).passAll hmoves
  have hlength : bytes.length = entry.size := by
    rw [← hend, EntryStream.position, hreader]
    exact hpassed.delivered.symm
  refine ⟨hlength, ?_⟩
  by_cases hempty : entry.size = 0
  · -- nothing was passed, so nothing was compared
    obtain rfl : bytes = [] := List.eq_nil_of_length_eq_zero (hlength.trans hempty)
    have hnone : Checksum.ofBytes [] = 0 := by decide
    rw [hnone]
    constructor
    · exact fun hsame => .inr hsame.symm
    · rintro (hsome | hzero)
      · exact absurd hempty hsome
      · exact hzero.symm
  · have hsome : bytes ≠ [] := by
      rintro rfl
      exact hempty hlength.symm
    exact ⟨fun _ => .inl hempty, fun _ => hpassed.checked hsome hlength _ rfl⟩

/-! ## Entries with one byte and with none -/

open Server (rootFile smallArchive smallContainer smallDisk)
open ArchiveVfs.Stream (smallEntry)

/-- The open stream over the entry of the small container. -/
def openedSmall : EntryStream where
  uri := smallEntry
  reader := some (.ofStored smallArchive.data 31 32 1 0x0862575D)
  size := 1

/-- The byte of the small container is passed over by a seek to the end, and was checked. -/
theorem passed_entry_checksum_small :
    ∃ last, ({ uri := smallEntry } : EntryStream).tryOpen { archives := [smallArchive] }
        (smallDisk smallContainer) = .ok openedSmall ∧
      openedSmall.passAll [(smallDisk smallContainer, .seek 0 .finish)] = .ok ([107], last) ∧
      last.position = 1 ∧ Checksum.ofBytes [107] = 0x0862575D := by
  let entry : Entry :=
    { path := "k", dataStart := 31, packedSize := 1, size := 1, method := .stored,
      checksum := 0x0862575D, encrypted := false }
  have hpath : entryPath? smallEntry = some "k" := by decide +kernel
  have harchive : ({ archives := [smallArchive] } : Mounts).findOrLoad (smallDisk smallContainer)
      smallEntry.archiveFile = .ok smallArchive := by rfl
  have hfile : smallArchive.file? "k" = some entry := by decide +kernel
  have hopen : ({ uri := smallEntry } : EntryStream).tryOpen { archives := [smallArchive] }
      (smallDisk smallContainer) = .ok openedSmall := by rfl
  let last : EntryStream :=
    { openedSmall with
      reader := some ((EntryReader.ofStored smallArchive.data 31 32 1 0x0862575D).advance [107]) }
  have hmoves : openedSmall.passAll [(smallDisk smallContainer, .seek 0 .finish)]
      = .ok ([107], last) := by rfl
  exact ⟨last, hopen, hmoves, rfl,
    (passed_entry_checksum hpath harchive hfile rfl hopen hmoves rfl).2.2 (.inl (by decide))⟩

/-- A container with one stored file, `k`, without bytes, for which the checksum of another
content is recorded. -/
def emptyContainer : Bytes :=
  [80, 75, 3, 4, 10, 0, 0, 0, 0, 0, 0, 0, 33, 0, 93, 87, 98, 8, 0, 0, 0, 0, 0, 0, 0, 0, 1, 0,
    0, 0, 107,
    80, 75, 1, 2, 20, 0, 10, 0, 0, 0, 0, 0, 0, 0, 33, 0, 93, 87, 98, 8, 0, 0, 0, 0, 0, 0, 0, 0,
    1, 0, 0, 0, 0, 0, 0, 0, 0, 0, 0, 0, 0, 0, 0, 0, 0, 0, 107,
    80, 75, 5, 6, 0, 0, 0, 0, 1, 0, 1, 0, 47, 0, 0, 0, 31, 0, 0, 0, 0, 0]

/-- The wrong checksum of an entry without bytes is not noticed: the stream opens, a read finds
the end, and nothing fails. -/
theorem empty_entry_unchecked :
    ∃ items entry opened, Zip.items emptyContainer = .ok items ∧
      (Index.ofItems items).file? "k" = some entry ∧ entry.encrypted = false ∧ entry.size = 0 ∧
      ({ uri := smallEntry } : EntryStream).tryOpen {} (smallDisk emptyContainer) = .ok opened ∧
      opened.passAll [(smallDisk emptyContainer, .read 1)] = .ok ([], opened) ∧
      opened.position = entry.size ∧ Checksum.ofBytes [] ≠ entry.checksum := by
  let entry : Entry :=
    { path := "k", dataStart := 31, packedSize := 0, size := 0, method := .stored,
      checksum := 0x0862575D, encrypted := false }
  have hlisted : (Zip.items emptyContainer).isOk = true := by decide +kernel
  cases hitems : Zip.items emptyContainer with
  | error fault =>
    rw [hitems] at hlisted
    cases hlisted
  | ok items =>
    have hfile : (Index.ofItems items).file? "k" = some entry := by
      have hsame : (Index.ofItems ((Zip.items emptyContainer).toOption.getD [])).file? "k"
          = some entry := by decide +kernel
      rw [hitems] at hsame
      exact hsame
    have hpath : smallEntry.archiveFile.nativePath = "/t.zip" := by decide +kernel
    have hdata : Archive.loadData (smallDisk emptyContainer) true 1 = .ok (.mapped 1 100) := by
      decide +kernel
    have hbytes : (smallDisk emptyContainer).view 1 100 = emptyContainer := by decide +kernel
    have harchive : ({} : Mounts).findOrLoad (smallDisk emptyContainer) smallEntry.archiveFile
        = .ok ⟨rootFile "/t.zip", "", .mapped 1 100, .ofItems items⟩ :=
      Archive.load_of_items (by rw [hpath, Server.locate_smallDisk]) hdata
        (by rw [ArchiveData.bytes, hbytes, hitems])
    refine ⟨items, entry, {
      uri := smallEntry
      reader := some (.ofStored (.mapped 1 100) 31 31 0 0x0862575D) }, rfl, hfile, rfl, rfl, ?_,
      rfl, rfl, by decide⟩
    have hname : smallEntry.queryValue Uri.entryKey = some "k" := by decide +kernel
    rw [tryOpen_named hname (by decide), harchive, Outcome.ok_bind]
    have hnormal : EntryPath.normal "k" = "k" := by decide
    rw [hnormal, Archive.openEntry]
    simp only [Archive.file?, hfile]
    rfl

end ArchiveVfs.EntryStream
