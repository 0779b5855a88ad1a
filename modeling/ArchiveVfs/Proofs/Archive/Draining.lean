import ArchiveVfs.Proofs.Archive.EntryCursor
import ArchiveVfs.Proofs.Archive.Passing
import ArchiveVfs.Proofs.Deflate.Draining

/-!
# Entries in pieces and at once

Who takes an entry in pieces, each as large as wanted, and comes to its end without an error,
has taken what the entry hands out at once (`Pulled.whole`). Nothing is assumed of the data:
they may be damaged. Where they are, reading in pieces may fail later than reading at once, but
it fails too: all pieces together are drained from the source, and the checksum is compared
behind the last byte in both cases.
-/

namespace ArchiveVfs

variable {disk : Disk} {position count finish : Nat} {found rest bytes : Bytes}

/-- Of a source that does not change and shows the bytes behind the position, a smaller request
hands out nothing that the greatest one does not. -/
theorem Drains.of_constant {σ ε : Type} {fetch : σ → Nat → Nat → Except ε Bytes × σ} {source : σ}
    {whole : Bytes}
    (hfetch : ∀ position count, fetch source position count
      = (.ok ((whole.drop position).take count), source))
    (hfinish : position + count ≤ finish) (hsome : (whole.drop position).take count ≠ [])
    (hrest : Drains fetch finish (position + ((whole.drop position).take count).length) source
      rest) :
    Drains fetch finish position source ((whole.drop position).take count ++ rest) := by
  have hlength : ((whole.drop position).take count).length = min count (whole.length - position) :=
    by rw [List.length_take, List.length_drop]
  have hpositive := List.length_pos_iff.2 hsome
  by_cases hlast : position + ((whole.drop position).take count).length = finish
  · have hcount : finish - position = count := by omega
    exact .more (by omega) (by rw [hfetch, hcount]) hsome hrest
  · obtain ⟨more, next, behind, hmore, hnonempty, hbehind, rfl⟩ := hrest.first (by omega)
    rw [hfetch] at hmore
    obtain ⟨heq, rfl⟩ := Prod.mk.inj hmore
    obtain rfl := Except.ok.inj heq
    -- there was more behind the first answer, so that was as long as asked for
    have hfull : ((whole.drop position).take count).length = count := by
      have := List.length_pos_iff.2 hnonempty
      rw [List.length_take, List.length_drop] at this
      omega
    have hall : (whole.drop position).take count ++ (whole.drop (position + count)).take
        (finish - (position + count)) = (whole.drop position).take (finish - position) := by
      rw [← List.drop_drop, ← List.take_add,
        show count + (finish - (position + count)) = finish - position by omega]
    rw [hfull] at hbehind ⊢
    rw [← List.append_assoc, hall]
    have hplace : position + ((whole.drop position).take (finish - position)).length
        = position + count + ((whole.drop (position + count)).take
          (finish - (position + count))).length := by
      rw [← hall, List.length_append, hfull, Nat.add_assoc]
    refine .more (by omega) (hfetch _ _) ?_ ?_
    · rw [← hall]
      exact List.append_ne_nil_of_left_ne_nil hsome _
    · rw [hplace]
      exact hbehind

namespace EntrySource

variable {source next : EntrySource}

/-- Draining a source. -/
abbrev Drained (disk : Disk) (finish position : Nat) (source : EntrySource) (bytes : Bytes) :
    Prop :=
  Drains (fun source position count => fetch source disk position count) finish position source
    bytes

/-- A supply that is decoded while it is read has come about by reading. -/
def Honest : EntrySource → Prop
  | .deflated _ _ _ supply => supply.Honest
  | _ => True

/-- The pieces that a window of the archive gives a supply. -/
def pieceOf (data : ArchiveData) (disk : Disk) (start finish : Nat) (offset : Nat) : Bytes :=
  (data.window disk (start + offset) finish).take Deflate.pieceSize

section Deflated

variable {data : ArchiveData} {start stop : Nat} {supply : Deflate.Supply}

theorem fetch_deflated :
    (deflated data start stop supply).fetch disk position count
      = ((supply.read (pieceOf data disk start stop) position count).1.mapError .ofDeflate,
        .deflated data start stop
          (supply.read (pieceOf data disk start stop) position count).2) := rfl

/-- What a deflated source hands out comes from its supply. -/
theorem fetch_deflated_eq_ok
    (h : (deflated data start stop supply).fetch disk position count = (.ok found, next)) :
    ∃ left, supply.read (pieceOf data disk start stop) position count = (.ok found, left) ∧
      next = .deflated data start stop left := by
  rw [fetch_deflated] at h
  rcases hread : supply.read (pieceOf data disk start stop) position count with
    ⟨fault | given, left⟩
  · rw [hread] at h
    cases h
  · rw [hread] at h
    obtain ⟨hfound, rfl⟩ := Prod.mk.inj h
    obtain rfl := Except.ok.inj hfound
    exact ⟨left, rfl, rfl⟩

/-- To drain a deflated source is to drain its supply. -/
theorem drained_deflated :
    Drained disk finish position (.deflated data start stop supply) bytes ↔
      supply.Drained (pieceOf data disk start stop) finish position bytes := by
  constructor
  · intro h
    generalize hsource : deflated data start stop supply = source at h
    induction h generalizing supply with
    | done => exact .done supply
    | more hposition hfetch hsome _ ih =>
      subst hsource
      obtain ⟨left, hread, rfl⟩ := fetch_deflated_eq_ok hfetch
      exact .more hposition hread hsome (ih rfl)
  · intro h
    induction h with
    | done supply => exact .done _
    | more hposition hread hsome _ ih =>
      refine .more hposition ?_ hsome ih
      rw [fetch_deflated, hread]
      rfl

end Deflated

/-- A request that is answered, and what is drained behind it, are together what is drained from
where the request began. -/
theorem drains_behind (h : source.Honest) (hcount : 0 < count) (hfinish : position + count ≤ finish)
    (hfetch : source.fetch disk position count = (.ok found, next)) (hsome : found ≠ [])
    (hrest : Drained disk finish (position + found.length) next rest) :
    Drained disk finish position source (found ++ rest) := by
  cases source with
  | stored data start stop =>
    obtain ⟨hfound, rfl⟩ := Prod.mk.inj hfetch
    obtain rfl := Except.ok.inj hfound
    simp only [ArchiveData.window_add] at hsome hrest ⊢
    exact .of_constant (fun position count => by rw [fetch, ArchiveData.window_add]) hfinish hsome
      hrest
  | decoded contents =>
    obtain ⟨hfound, rfl⟩ := Prod.mk.inj hfetch
    obtain rfl := Except.ok.inj hfound
    exact .of_constant (fun position count => rfl) hfinish hsome hrest
  | deflated data start stop supply =>
    obtain ⟨left, hread, rfl⟩ := fetch_deflated_eq_ok hfetch
    rw [drained_deflated] at hrest ⊢
    exact Deflate.Supply.drains_behind h hcount hfinish hread hsome hrest

/-- However the data are spoiled, no more is handed out than was asked for. -/
theorem length_fetch (hfetch : source.fetch disk position count = (.ok found, next)) :
    found.length ≤ count := by
  cases source with
  | stored data start stop =>
    obtain rfl := Except.ok.inj (Prod.mk.inj hfetch).1
    exact List.length_take_le _ _
  | decoded contents =>
    obtain rfl := Except.ok.inj (Prod.mk.inj hfetch).1
    exact List.length_take_le _ _
  | deflated data start stop supply =>
    obtain ⟨_, hread, _⟩ := fetch_deflated_eq_ok hfetch
    exact Deflate.Supply.length_read hread

theorem fetch_honest (h : source.Honest)
    (hfetch : source.fetch disk position count = (.ok found, next)) : next.Honest := by
  cases source with
  | stored data start stop =>
    obtain ⟨_, rfl⟩ := Prod.mk.inj hfetch
    trivial
  | decoded contents =>
    obtain ⟨_, rfl⟩ := Prod.mk.inj hfetch
    trivial
  | deflated data start stop supply =>
    obtain ⟨_, hread, rfl⟩ := fetch_deflated_eq_ok hfetch
    exact Deflate.Supply.read_honest h hread

end EntrySource

namespace EntryReader

variable {reader next last : EntryReader} {rounds chunk size : Nat} {expected : Option UInt32}

/-- The reader has come about by reading. -/
structure Honest (reader : EntryReader) : Prop where
  source : reader.source.Honest
  within : reader.delivered ≤ reader.size

/-- Asking the source for all that is left hands out these bytes. -/
abbrev Drained (disk : Disk) (reader : EntryReader) (bytes : Bytes) : Prop :=
  reader.source.Drained disk reader.size reader.delivered bytes

/-- What a transfer that succeeds does to a reader: it hands out what would be drained first. -/
structure Hands (disk : Disk) (found : Bytes) (reader next : EntryReader) : Prop where
  honest : next.Honest
  size : next.size = reader.size
  delivered : next.delivered = reader.delivered + found.length
  behind : ∀ rest, next.Drained disk rest → reader.Drained disk (found ++ rest)

namespace Hands

theorem refl (h : reader.Honest) : Hands disk [] reader reader :=
  ⟨h, rfl, rfl, fun _ hrest => hrest⟩

theorem trans {more : Bytes} (hfirst : Hands disk found reader next)
    (hsecond : Hands disk more next last) : Hands disk (found ++ more) reader last where
  honest := hsecond.honest
  size := hsecond.size.trans hfirst.size
  delivered := by
    rw [hsecond.delivered, hfirst.delivered, List.length_append, Nat.add_assoc]
  behind rest hrest := by
    rw [List.append_assoc]
    exact hfirst.behind _ (hsecond.behind rest hrest)

end Hands

/-- One transfer. It hands out nothing only where nothing is wanted or left. -/
theorem Honest.read (h : reader.Honest) (hread : reader.read disk count = (.ok found, next)) :
    Hands disk found reader next ∧
      (found = [] → min count (reader.size - reader.delivered) = 0) := by
  rcases read_eq_ok hread with ⟨hdone, rfl, rfl⟩ | ⟨hwanted, hsome, source, hfetch, rfl, _⟩
  · exact ⟨.refl h, fun _ => hdone⟩
  · have hwithin := h.within
    have hlength := EntrySource.length_fetch hfetch
    refine ⟨⟨⟨EntrySource.fetch_honest h.source hfetch, ?_⟩, rfl, rfl, fun rest hrest => ?_⟩,
      fun hnil => absurd hnil hsome⟩
    · show reader.delivered + found.length ≤ reader.size
      omega
    · exact EntrySource.drains_behind h.source (Nat.pos_of_ne_zero hwanted) (by omega) hfetch hsome
        hrest

/-- A longer transfer. Its first round hands out something unless nothing is wanted or left. -/
theorem Honest.fillFrom {old : Bytes} (h : reader.Honest)
    (hfill : reader.fillFrom disk rounds count old = (.ok found, next)) :
    ∃ new, found = old ++ new ∧ Hands disk new reader next ∧
      (new = [] → rounds = 0 ∨ min count (reader.size - reader.delivered) = 0) := by
  induction rounds generalizing reader count old with
  | zero =>
    obtain ⟨hfound, rfl⟩ := Prod.mk.inj hfill
    exact ⟨[], by rw [← Except.ok.inj hfound, List.append_nil], .refl h, fun _ => .inl rfl⟩
  | succ rounds ih =>
    rw [EntryReader.fillFrom] at hfill
    rcases hread : reader.read disk count with ⟨fault | given, moved⟩
    · rw [hread] at hfill
      cases hfill
    · rw [hread] at hfill
      obtain ⟨hhands, hnone⟩ := h.read hread
      cases given with
      | nil =>
        obtain ⟨hfound, rfl⟩ := Prod.mk.inj hfill
        exact ⟨[], by rw [← Except.ok.inj hfound, List.append_nil], hhands,
          fun _ => .inr (hnone rfl)⟩
      | cons first more =>
        obtain ⟨new, hnew, hlast, _⟩ := ih hhands.honest hfill
        refine ⟨first :: more ++ new, ?_, hhands.trans hlast, by simp⟩
        rw [hnew, List.append_assoc]

theorem Honest.fill (h : reader.Honest) (hfill : reader.fill disk count = (.ok found, next)) :
    Hands disk found reader next ∧
      (found = [] → count = 0 ∨ reader.size ≤ reader.delivered) := by
  obtain ⟨new, rfl, hhands, hnone⟩ := h.fillFrom hfill
  refine ⟨hhands, fun hnil => ?_⟩
  rcases hnone hnil with hzero | hzero
  · exact .inl hzero
  · omega

/-! ## In pieces -/

/-- Taking pieces of up to `chunk` bytes until the end gives these bytes. -/
inductive Pulled (disk : Disk) (chunk : Nat) : EntryReader → Bytes → Prop where
  | done {reader : EntryReader} (hend : reader.size ≤ reader.delivered) :
      Pulled disk chunk reader []
  | more {reader next : EntryReader} {found rest : Bytes}
      (hfill : reader.fill disk chunk = (.ok found, next)) (hrest : Pulled disk chunk next rest) :
      Pulled disk chunk reader (found ++ rest)

namespace Pulled

/-- All pieces together are what is drained. -/
theorem drained (hpulled : Pulled disk chunk reader bytes) (h : reader.Honest) :
    reader.Drained disk bytes := by
  induction hpulled with
  | @done reader hend =>
    have hsame : reader.size = reader.delivered := Nat.le_antisymm hend h.within
    rw [Drained, hsame]
    exact .done reader.source
  | more hfill _ ih =>
    obtain ⟨hhands, _⟩ := h.fill hfill
    exact hhands.behind _ (ih hhands.honest)

theorem passed {before : Bytes} (hpulled : Pulled disk chunk reader bytes)
    (h : reader.Passed size expected before) :
    ∃ last : EntryReader, last.Passed size expected (before ++ bytes) := by
  induction hpulled generalizing before with
  | @done reader =>
    rw [List.append_nil]
    exact ⟨reader, h⟩
  | more hfill _ ih =>
    obtain ⟨last, hlast⟩ := ih (h.fill hfill)
    rw [List.append_assoc] at hlast
    exact ⟨last, hlast⟩

end Pulled

/-! ## At once -/

/-- The checksum will be right when these bytes have been handed out. -/
def Checks (bytes : Bytes) (reader : EntryReader) : Prop :=
  bytes ≠ [] → ∀ checksum, reader.expected = some checksum →
    Checksum.finish (Checksum.add reader.register bytes) = checksum

/-- A transfer of all that is left hands out the first of what is drained. -/
theorem read_of_drained (h : reader.Drained disk bytes) (hchecks : reader.Checks bytes)
    (hleft : reader.delivered < reader.size) :
    ∃ found rest next, reader.read disk (reader.size - reader.delivered) = (.ok found, next) ∧
      found ≠ [] ∧ bytes = found ++ rest ∧ next.Drained disk rest ∧ next.Checks rest ∧
      next.size = reader.size ∧ next.delivered = reader.delivered + found.length := by
  obtain ⟨found, source, rest, hfetch, hsome, hrest, rfl⟩ := h.first hleft
  have hchecked : ({ reader with source }.advance found).Checks rest := by
    intro hmore checksum hexpected
    show Checksum.finish (Checksum.add (Checksum.add reader.register found) rest) = checksum
    rw [← Checksum.add_append]
    exact hchecks (by simp [hsome]) checksum hexpected
  refine ⟨found, rest, { reader with source }.advance found, ?_, hsome, rfl, hrest, hchecked, rfl,
    rfl⟩
  rw [EntryReader.read, Nat.min_self]
  dsimp only
  rw [if_neg (by omega), hfetch]
  cases found with
  | nil => exact absurd rfl hsome
  | cons first more =>
    dsimp only
    by_cases hend : ({ reader with source }.advance (first :: more)).delivered
        = ({ reader with source }.advance (first :: more)).size
    · -- this is the last byte, and nothing is drained behind it
      have hend' : reader.delivered + (first :: more).length = reader.size := hend
      rw [hend'] at hrest
      obtain rfl := hrest.eq_nil
      rw [List.append_nil] at hchecks
      have hright : ({ reader with source }.advance (first :: more)).checksumFault? = none := by
        rw [checksumFault?]
        cases hexpected : reader.expected with
        | none => simp only [advance]
        | some checksum =>
          have hsame := hchecks hsome checksum hexpected
          simp only [advance, hsame, if_true]
      rw [if_pos hend, hright]
    · rw [if_neg hend]

theorem fillFrom_of_drained {old : Bytes} (h : reader.Drained disk bytes)
    (hchecks : reader.Checks bytes) (hrounds : reader.size ≤ reader.delivered + rounds) :
    ∃ last, reader.fillFrom disk rounds (reader.size - reader.delivered) old
      = (.ok (old ++ bytes), last) := by
  induction rounds generalizing reader old bytes with
  | zero =>
    have hlength := h.length
    obtain rfl : bytes = [] := List.eq_nil_of_length_eq_zero (by omega)
    exact ⟨reader, by rw [EntryReader.fillFrom, List.append_nil]⟩
  | succ rounds ih =>
    by_cases hleft : reader.delivered < reader.size
    · obtain ⟨found, rest, next, hread, hsome, rfl, hrest, hnext, hsize, hmoved⟩ :=
        read_of_drained h hchecks hleft
      have hpositive := List.length_pos_iff.2 hsome
      obtain ⟨last, hfill⟩ : ∃ last, next.fillFrom disk rounds (next.size - next.delivered)
          (old ++ found) = (.ok (old ++ found ++ rest), last) := ih hrest hnext (by omega)
      have hcount : reader.size - reader.delivered - found.length
          = next.size - next.delivered := by omega
      rw [EntryReader.fillFrom, hread]
      cases found with
      | nil => exact absurd rfl hsome
      | cons first more =>
        refine ⟨last, ?_⟩
        dsimp only
        rw [hcount, hfill, List.append_assoc]
    · have hlength := h.length
      obtain rfl : bytes = [] := List.eq_nil_of_length_eq_zero (by omega)
      have hzero : reader.size - reader.delivered = 0 := by omega
      rw [hzero, List.append_nil, EntryReader.fillFrom, EntryReader.read, Nat.zero_min]
      exact ⟨reader, rfl⟩

/-- All that is drained is handed out at once. -/
theorem fill_of_drained (h : reader.Drained disk bytes) (hchecks : reader.Checks bytes) :
    ∃ last, reader.fill disk (reader.size - reader.delivered) = (.ok bytes, last) :=
  fillFrom_of_drained h hchecks (by omega)

/-- Who takes an entry in pieces to its end has taken what it hands out at once. -/
theorem Pulled.whole (hpulled : Pulled disk chunk reader bytes) (h : reader.Honest)
    (hpassed : reader.Passed size expected []) :
    ∃ last, reader.fill disk size = (.ok bytes, last) := by
  have hdrained := hpulled.drained h
  obtain ⟨last, hlast⟩ := hpulled.passed hpassed
  have hstart : reader.delivered = 0 := hpassed.delivered
  have hlength : bytes.length = size := by
    rw [← hpassed.ofSize, ← hdrained.length, hstart, Nat.zero_add]
  have hchecks : reader.Checks bytes := by
    intro hsome checksum hexpected
    rw [hpassed.register]
    exact hlast.checked hsome hlength checksum (hpassed.expects.symm.trans hexpected)
  have hfill := fill_of_drained hdrained hchecks
  rwa [hstart, Nat.sub_zero, hpassed.ofSize] at hfill

end EntryReader

/-- The reader of an entry that has just been opened has passed nothing. -/
theorem Archive.fresh_of_openEntry {archive : Archive} {path : String} {password : Option String}
    {reader : EntryReader} (hopen : archive.openEntry disk path password = .ok reader) :
    reader.Honest ∧ reader.Passed reader.size reader.expected [] := by
  obtain ⟨_, _, ⟨_, contents, rfl⟩ | ⟨_, finish, rfl | rfl⟩⟩ := openEntry_eq_ok hopen
  · exact ⟨⟨trivial, Nat.zero_le _⟩, rfl, rfl, rfl, rfl, fun h => absurd rfl h⟩
  · exact ⟨⟨trivial, Nat.zero_le _⟩, rfl, rfl, rfl, rfl, fun h => absurd rfl h⟩
  · exact ⟨⟨Deflate.Supply.ofSize_honest _, Nat.zero_le _⟩, rfl, rfl, rfl, rfl,
      fun h => absurd rfl h⟩

end ArchiveVfs
