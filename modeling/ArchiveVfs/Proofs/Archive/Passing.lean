import ArchiveVfs.Proofs.Archive.Load

/-!
# What a reader has passed

A reader counts the bytes that it hands out and takes them into its register, whether they
are wanted or passed over. Nothing is assumed of the data here: they may be damaged, and
may change between two transfers. What holds of the bytes that a reader has passed
(`EntryReader.Passed`) is kept by every transfer that succeeds: when they are as many as
recorded, their checksum has been compared with the recorded one. The comparison stands
behind the last byte, so it is never made where there is none.
-/

namespace ArchiveVfs.EntryReader

variable {disk : Disk} {reader next : EntryReader} {count rounds size : Nat}
  {expected : Option UInt32} {bytes found : Bytes}

/-- All that a transfer that succeeds can do: leave the reader as it is where nothing is
wanted or left, or hand out what the source gives, checked where it is the last. -/
theorem read_eq_ok (h : reader.read disk count = (.ok found, next)) :
    (min count (reader.size - reader.delivered) = 0 ∧ found = [] ∧ next = reader) ∨
    (min count (reader.size - reader.delivered) ≠ 0 ∧ found ≠ [] ∧
      ∃ source, reader.source.fetch disk reader.delivered
          (min count (reader.size - reader.delivered)) = (.ok found, source) ∧
        next = { reader with source }.advance found ∧
        (next.delivered = next.size → next.checksumFault? = none)) := by
  rw [read] at h
  dsimp only at h
  by_cases hdone : min count (reader.size - reader.delivered) = 0
  · rw [if_pos hdone] at h
    obtain ⟨hfound, rfl⟩ := Prod.mk.inj h
    exact .inl ⟨hdone, (Except.ok.inj hfound).symm, rfl⟩
  · right
    rw [if_neg hdone] at h
    rcases hfetch : reader.source.fetch disk reader.delivered
      (min count (reader.size - reader.delivered)) with ⟨fault | given, source⟩
    · rw [hfetch] at h
      cases h
    · rw [hfetch] at h
      cases given with
      | nil => cases h
      | cons first more =>
        dsimp only at h
        generalize hmoved : EntryReader.advance { reader with source } (first :: more) = moved at h
        by_cases hend : moved.delivered = moved.size
        · rw [if_pos hend] at h
          cases hsum : moved.checksumFault? with
          | some fault =>
            rw [hsum] at h
            cases h
          | none =>
            rw [hsum] at h
            obtain ⟨hfound, rfl⟩ := Prod.mk.inj h
            obtain rfl := Except.ok.inj hfound
            exact ⟨hdone, by simp, source, rfl, hmoved.symm, fun _ => hsum⟩
        · rw [if_neg hend] at h
          obtain ⟨hfound, rfl⟩ := Prod.mk.inj h
          obtain rfl := Except.ok.inj hfound
          exact ⟨hdone, by simp, source, rfl, hmoved.symm, fun hlast => absurd hlast hend⟩

/-- The reader of an entry with this recorded size and checksum has passed these bytes. -/
structure Passed (size : Nat) (expected : Option UInt32) (bytes : Bytes) (reader : EntryReader) :
    Prop where
  ofSize : reader.size = size
  expects : reader.expected = expected
  delivered : reader.delivered = bytes.length
  register : reader.register = Checksum.add Checksum.start bytes
  checked : bytes ≠ [] → bytes.length = size →
    ∀ checksum, expected = some checksum → Checksum.ofBytes bytes = checksum

namespace Passed

/-- A transfer passes what it hands out. -/
theorem read (h : reader.Passed size expected bytes)
    (hread : reader.read disk count = (.ok found, next)) :
    next.Passed size expected (bytes ++ found) := by
  rcases read_eq_ok hread with ⟨_, rfl, rfl⟩ | ⟨_, _, source, _, rfl, hchecked⟩
  · rw [List.append_nil]
    exact h
  · have hdelivered : (EntryReader.advance { reader with source } found).delivered
        = (bytes ++ found).length := by
      show reader.delivered + found.length = _
      rw [h.delivered, List.length_append]
    have hregister : (EntryReader.advance { reader with source } found).register
        = Checksum.add Checksum.start (bytes ++ found) := by
      show Checksum.add reader.register found = _
      rw [h.register, Checksum.add_append]
    refine ⟨h.ofSize, h.expects, hdelivered, hregister, ?_⟩
    intro _ hlength checksum hchecksum
    have hnone := hchecked (by
      rw [hdelivered, hlength]
      exact h.ofSize.symm)
    have hsame : (EntryReader.advance { reader with source } found).expected = some checksum :=
      h.expects.trans hchecksum
    simp only [checksumFault?, hsame, hregister] at hnone
    split at hnone
    · assumption
    · cases hnone

/-- So do the rounds of a longer transfer: what is handed out stands behind what was there. -/
theorem fillFrom {old : Bytes} (h : reader.Passed size expected bytes)
    (hfill : reader.fillFrom disk rounds count old = (.ok found, next)) :
    ∃ new, found = old ++ new ∧ next.Passed size expected (bytes ++ new) := by
  induction rounds generalizing reader count old bytes with
  | zero =>
    obtain ⟨hfound, rfl⟩ := Prod.mk.inj hfill
    refine ⟨[], ?_, ?_⟩
    · rw [← Except.ok.inj hfound, List.append_nil]
    · rw [List.append_nil]
      exact h
  | succ rounds ih =>
    rw [EntryReader.fillFrom] at hfill
    rcases hread : reader.read disk count with ⟨fault | given, moved⟩
    · rw [hread] at hfill
      cases hfill
    · rw [hread] at hfill
      have hmoved := h.read hread
      cases given with
      | nil =>
        obtain ⟨hfound, rfl⟩ := Prod.mk.inj hfill
        exact ⟨[], by rw [← Except.ok.inj hfound, List.append_nil], hmoved⟩
      | cons first more =>
        obtain ⟨new, hnew, hlast⟩ := ih hmoved hfill
        refine ⟨first :: more ++ new, ?_, ?_⟩
        · rw [hnew, List.append_assoc]
        · rw [← List.append_assoc]
          exact hlast

theorem fill (h : reader.Passed size expected bytes)
    (hfill : reader.fill disk count = (.ok found, next)) :
    next.Passed size expected (bytes ++ found) := by
  obtain ⟨new, rfl, hnext⟩ := h.fillFrom hfill
  exact hnext

end Passed

/-! ## Passing over bytes -/

/-- The bytes that the rounds of passing over hand out and drop. -/
def droppedFrom (disk : Disk) : (rounds : Nat) → (count : Nat) → EntryReader → Bytes
  | 0, _, _ => []
  | rounds + 1, count, reader =>
    match reader.read disk (min count skipSize) with
    | (.ok (first :: more), next) =>
      (first :: more) ++ droppedFrom disk rounds (count - (first :: more).length) next
    | _ => []

/-- The bytes that passing over hands out and drops. -/
def dropped (reader : EntryReader) (disk : Disk) (count : Nat) : Bytes :=
  reader.droppedFrom disk count count

theorem Passed.skipFrom (h : reader.Passed size expected bytes)
    (hskip : reader.skipFrom disk rounds count = (.ok (), next)) :
    next.Passed size expected (bytes ++ reader.droppedFrom disk rounds count) := by
  induction rounds generalizing reader count bytes with
  | zero =>
    obtain ⟨_, rfl⟩ := Prod.mk.inj hskip
    rw [droppedFrom, List.append_nil]
    exact h
  | succ rounds ih =>
    rw [EntryReader.skipFrom] at hskip
    rw [droppedFrom]
    rcases hread : reader.read disk (min count skipSize) with ⟨fault | given, moved⟩
    · rw [hread] at hskip
      cases hskip
    · rw [hread] at hskip
      have hmoved := h.read hread
      cases given with
      | nil =>
        obtain ⟨_, rfl⟩ := Prod.mk.inj hskip
        exact hmoved
      | cons first more =>
        have hlast := ih hmoved hskip
        rw [List.append_assoc] at hlast
        exact hlast

theorem Passed.skip (h : reader.Passed size expected bytes)
    (hskip : reader.skip disk count = (.ok (), next)) :
    next.Passed size expected (bytes ++ reader.dropped disk count) :=
  h.skipFrom hskip

end ArchiveVfs.EntryReader

namespace ArchiveVfs.Archive

variable {archive : Archive} {disk : Disk} {path : String} {password : Option String}
  {reader : EntryReader}

/-- A reader that has just been opened has passed nothing. It knows the recorded size and
checksum of an entry that is not encrypted. -/
theorem passed_of_openEntry {entry : Entry} (hfile : archive.file? path = some entry)
    (hplain : entry.encrypted = false)
    (hopen : archive.openEntry disk path password = .ok reader) :
    reader.Passed entry.size (some entry.checksum) [] := by
  obtain ⟨other, hother, ⟨hsealed, _⟩ | ⟨_, finish, rfl | rfl⟩⟩ := openEntry_eq_ok hopen
  · rw [hfile] at hother
    obtain rfl := Option.some.inj hother
    rw [hplain] at hsealed
    cases hsealed
  all_goals
    rw [hfile] at hother
    obtain rfl := Option.some.inj hother
    exact ⟨rfl, rfl, rfl, rfl, fun h => absurd rfl h⟩

end ArchiveVfs.Archive
