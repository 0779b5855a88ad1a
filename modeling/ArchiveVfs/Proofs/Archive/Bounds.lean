import ArchiveVfs.Proofs.Archive.Draining

/-!
# Where a transfer leaves a reader

A transfer moves a reader forward and not behind the recorded size, whether it succeeds or
fails. Nothing is assumed of the data: they may be damaged, and may change between two
transfers.
-/

namespace ArchiveVfs.EntryReader

variable {reader next last : EntryReader}

/-- What every transfer leaves of a reader: its size, and a place between where it was and the
end. -/
structure Advances (reader next : EntryReader) : Prop where
  size : next.size = reader.size
  forward : reader.delivered ≤ next.delivered
  within : reader.delivered ≤ reader.size → next.delivered ≤ reader.size

namespace Advances

theorem refl (reader : EntryReader) : reader.Advances reader :=
  ⟨rfl, Nat.le_refl _, id⟩

theorem trans (hfirst : reader.Advances next) (hsecond : next.Advances last) :
    reader.Advances last where
  size := hsecond.size.trans hfirst.size
  forward := Nat.le_trans hfirst.forward hsecond.forward
  within h := by
    have hnext := hsecond.within (hfirst.size ▸ hfirst.within h)
    rwa [hfirst.size] at hnext

end Advances

theorem read_advances (reader : EntryReader) (disk : Disk) (count : Nat) :
    reader.Advances (reader.read disk count).2 := by
  rw [read]
  dsimp only
  split
  · exact .refl reader
  · rcases hfetch : reader.source.fetch disk reader.delivered
      (min count (reader.size - reader.delivered)) with ⟨fault | found, source⟩
    · exact ⟨rfl, Nat.le_refl _, id⟩
    · have hlength := EntrySource.length_fetch hfetch
      have hmoved : reader.Advances (advance { reader with source } found) := by
        refine ⟨rfl, Nat.le_add_right _ _, fun hwithin => ?_⟩
        show reader.delivered + found.length ≤ reader.size
        omega
      cases found with
      | nil => exact ⟨rfl, Nat.le_refl _, id⟩
      | cons first more =>
        dsimp only
        split
        · split <;> exact hmoved
        · exact hmoved

/-- The second reader has come of the first by reads of any size, each on a disk of its own and
with any outcome. -/
inductive Reads (reader : EntryReader) : EntryReader → Prop where
  | here : Reads reader reader
  | read {next : EntryReader} (disk : Disk) (count : Nat) (h : Reads reader next) :
      Reads reader (next.read disk count).2

theorem Reads.trans (hfirst : reader.Reads next) (hsecond : next.Reads last) :
    reader.Reads last := by
  induction hsecond with
  | here => exact hfirst
  | read disk count _ ih => exact ih.read disk count

theorem Reads.advances (h : reader.Reads next) : reader.Advances next := by
  induction h with
  | here => exact .refl reader
  | read disk count _ ih => exact ih.trans (read_advances _ disk count)

theorem fillFrom_reads (disk : Disk) (rounds count : Nat) (found : Bytes)
    (reader : EntryReader) : reader.Reads (reader.fillFrom disk rounds count found).2 := by
  induction rounds generalizing reader count found with
  | zero => exact .here
  | succ rounds ih =>
    have hread : reader.Reads (reader.read disk count).2 := .read disk count .here
    rw [fillFrom]
    generalize reader.read disk count = outcome at hread ⊢
    rcases outcome with ⟨fault | _ | _, next⟩
    · exact hread
    · exact hread
    · exact hread.trans (ih _ _ next)

/-- A longer transfer is made of reads. -/
theorem fill_reads (reader : EntryReader) (disk : Disk) (count : Nat) :
    reader.Reads (reader.fill disk count).2 :=
  fillFrom_reads disk count count [] reader

theorem fill_advances (reader : EntryReader) (disk : Disk) (count : Nat) :
    reader.Advances (reader.fill disk count).2 :=
  (fill_reads reader disk count).advances

theorem skipFrom_reads (disk : Disk) (rounds count : Nat) (reader : EntryReader) :
    reader.Reads (reader.skipFrom disk rounds count).2 := by
  induction rounds generalizing reader count with
  | zero => exact .here
  | succ rounds ih =>
    have hread : reader.Reads (reader.read disk (min count skipSize)).2 := .read disk _ .here
    rw [skipFrom]
    generalize reader.read disk (min count skipSize) = outcome at hread ⊢
    rcases outcome with ⟨fault | _ | _, next⟩
    · exact hread
    · exact hread
    · exact hread.trans (ih _ next)

/-- So is passing over bytes. -/
theorem skip_reads (reader : EntryReader) (disk : Disk) (count : Nat) :
    reader.Reads (reader.skip disk count).2 :=
  skipFrom_reads disk count count reader

theorem skip_advances (reader : EntryReader) (disk : Disk) (count : Nat) :
    reader.Advances (reader.skip disk count).2 :=
  (skip_reads reader disk count).advances

/-- Bytes that are recorded are passed over one and all, or passing over them fails. -/
theorem delivered_of_skipFrom {disk : Disk} {rounds count : Nat} (hrounds : count ≤ rounds)
    (hroom : reader.delivered + count ≤ reader.size)
    (hskip : reader.skipFrom disk rounds count = (.ok (), next)) :
    next.delivered = reader.delivered + count := by
  induction rounds generalizing reader count with
  | zero =>
    obtain rfl : count = 0 := Nat.le_zero.1 hrounds
    obtain ⟨_, rfl⟩ := Prod.mk.inj hskip
    rfl
  | succ rounds ih =>
    rw [skipFrom] at hskip
    rcases hread : reader.read disk (min count skipSize) with ⟨fault | found, moved⟩
    · rw [hread] at hskip
      cases hskip
    · rw [hread] at hskip
      rcases read_eq_ok hread with ⟨hzero, rfl, rfl⟩ | ⟨_, hsome, source, hfetch, rfl, _⟩
      · obtain rfl : count = 0 := by
          rw [skipSize] at hzero
          omega
        obtain ⟨_, rfl⟩ := Prod.mk.inj hskip
        rfl
      · have hfew := EntrySource.length_fetch hfetch
        obtain ⟨first, more, rfl⟩ := List.exists_cons_of_ne_nil hsome
        rw [List.length_cons] at hfew
        have hlast := ih (by rw [List.length_cons]; omega)
          (show reader.delivered + (more.length + 1) + (count - (more.length + 1)) ≤ reader.size
            by omega) hskip
        rw [hlast]
        show reader.delivered + (more.length + 1) + (count - (more.length + 1)) = _
        omega

theorem delivered_of_skip {disk : Disk} {count : Nat}
    (hroom : reader.delivered + count ≤ reader.size)
    (hskip : reader.skip disk count = (.ok (), next)) :
    next.delivered = reader.delivered + count :=
  delivered_of_skipFrom (Nat.le_refl count) hroom hskip

/-- A reader that has just been opened stands at its start. -/
theorem delivered_of_openEntry {archive : Archive} {disk : Disk} {path : String}
    {password : Option String} (h : archive.openEntry disk path password = .ok reader) :
    reader.delivered = 0 := by
  obtain ⟨_, _, ⟨_, _, rfl⟩ | ⟨_, _, rfl | rfl⟩⟩ := Archive.openEntry_eq_ok h <;> rfl

end ArchiveVfs.EntryReader
