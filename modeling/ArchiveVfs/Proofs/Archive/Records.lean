import ArchiveVfs.Proofs.Archive.Indexing
import ArchiveVfs.Proofs.Archive.Scenes
import ArchiveVfs.Proofs.Server.Precedence

/-!
# Entries and the records they stand for

An entry is indexed from the last record of a container that is a file at its path. A record
that is not encrypted is opened by what the index keeps of it, so that its contents are found
whatever its name looks like and whatever other records have its path. An encrypted one is
looked up in the container again, by its path: that finds the record with this very name
(`itemNamed_eq`), and so the right one only if that is how its name is written
(`openEntry_record`); else there is none, or it is another one (`openEntry_twin`).
-/

namespace ArchiveVfs

/-! ## The names of a container -/

namespace Zip

variable {data : Bytes} {items : List Item}

theorem mem_putRecord {record other : Record} {kept : List Record}
    (h : other ∈ putRecord record kept) : other = record ∨ other ∈ kept := by
  induction kept with
  | nil => exact .inl (List.mem_singleton.1 h)
  | cons first rest ih =>
    rw [putRecord] at h
    split at h
    · exact (List.mem_cons.1 h).imp_right (List.mem_cons_of_mem _)
    · rcases List.mem_cons.1 h with rfl | h
      · exact .inr List.mem_cons_self
      · exact (ih h).imp_right (List.mem_cons_of_mem _)

theorem nodup_putRecord (record : Record) {kept : List Record}
    (h : (kept.map Record.name).Nodup) : ((putRecord record kept).map Record.name).Nodup := by
  induction kept with
  | nil => exact List.nodup_singleton _
  | cons first rest ih =>
    rw [List.map_cons, List.nodup_cons] at h
    rw [putRecord]
    split
    next hsame =>
      rw [List.map_cons, List.nodup_cons, ← hsame]
      exact h
    next hother =>
      rw [List.map_cons, List.nodup_cons]
      refine ⟨fun hin => ?_, ih h.2⟩
      obtain ⟨found, hfound, hname⟩ := List.mem_map.1 hin
      rcases mem_putRecord hfound with rfl | hrest
      · exact hother hname.symm
      · exact h.1 (List.mem_map.2 ⟨found, hrest, hname⟩)

/-- No two of the distinct records have one name. -/
theorem nodup_distinct (records : List Record) : ((distinct records).map Record.name).Nodup := by
  have hfold (kept : List Record) (h : (kept.map Record.name).Nodup) :
      ((records.foldl (fun kept record => putRecord record kept) kept).map Record.name).Nodup := by
    induction records generalizing kept with
    | nil => exact h
    | cons record records ih => exact ih _ (nodup_putRecord record h)
  exact hfold [] List.nodup_nil

/-- The item is the record, with the place of its data. -/
def Item.IsOf (data : Bytes) (record : Record) (item : Item) : Prop :=
  item.toRecord = record ∧ record.dataStart data = .ok item.dataStart

theorem forall₂_of_items (h : Zip.items data = .ok items) :
    ∃ found, records data = .ok found ∧ List.Forall₂ (Item.IsOf data) found items := by
  obtain ⟨found, hrecords, hmap⟩ := Outcome.bind_eq_ok.1 h
  refine ⟨found, hrecords, ?_⟩
  clear h hrecords
  induction found generalizing items with
  | nil =>
    obtain rfl := Except.ok.inj hmap
    exact .nil
  | cons record found ih =>
    rw [List.mapM_cons] at hmap
    obtain ⟨item, hitem, hrest⟩ := Outcome.bind_eq_ok.1 hmap
    obtain ⟨start, hstart, hplaced⟩ := Outcome.bind_eq_ok.1 hitem
    obtain ⟨later, hlater, hall⟩ := Outcome.bind_eq_ok.1 hrest
    obtain rfl := Except.ok.inj hplaced
    obtain rfl := Except.ok.inj hall
    exact .cons ⟨rfl, hstart⟩ (ih hlater)

/-- No two items of a container have one name. -/
theorem nodup_items (h : Zip.items data = .ok items) :
    (items.map fun item => item.name).Nodup := by
  obtain ⟨found, hrecords, hall⟩ := forall₂_of_items h
  have hnames : (items.map fun item => item.name) = found.map Record.name := by
    clear h hrecords
    induction hall with
    | nil => rfl
    | cons hfirst _ ih =>
      rw [List.map_cons, List.map_cons, ih, hfirst.1]
  obtain ⟨_, _, rfl⟩ := Outcome.map_eq_ok.1 hrecords
  rw [hnames]
  exact nodup_distinct _

/-- Looking a name up in a container finds the item with this very name. -/
theorem itemNamed_eq (h : Zip.items data = .ok items) (name : String) :
    itemNamed data name = match items.find? fun item => item.name = name with
      | none => .error .entryMissing
      | some item => .ok item := by
  obtain ⟨found, hrecords, hall⟩ := forall₂_of_items h
  rw [itemNamed, hrecords, Outcome.ok_bind]
  clear h hrecords
  induction hall with
  | nil => rfl
  | @cons record item _ _ hfirst _ ih =>
    obtain ⟨rfl, hstart⟩ := hfirst
    cases hname : decide (item.name = name) with
    | true =>
      simp only [List.find?_cons, hname, hstart]
      rfl
    | false =>
      simp only [List.find?_cons, hname]
      exact ih

/-- An item is the one that its name finds. -/
theorem find?_name (h : Zip.items data = .ok items) {item : Item} (hin : item ∈ items) :
    (items.find? fun other => other.name = item.name) = some item := by
  have hnodup := nodup_items h
  clear h
  induction items with
  | nil => exact absurd hin List.not_mem_nil
  | cons first rest ih =>
    rw [List.map_cons, List.nodup_cons] at hnodup
    rcases List.mem_cons.1 hin with rfl | hrest
    · simp only [List.find?_cons, decide_true]
    · have hother : first.name ≠ item.name := fun hname =>
        hnodup.1 (List.mem_map.2 ⟨item, hrest, hname.symm⟩)
      simp only [List.find?_cons, decide_eq_false hother]
      exact ih hrest hnodup.2

/-- What the data of an item are when they are as its record says: they have the recorded size
and checksum, and are unpacked from where the record places them, with the password if they
are encrypted. -/
structure Item.Sound (item : Item) (container : Bytes) (password : Option String)
    (contents : Bytes) : Prop where
  size : contents.length = item.size
  checksum : Checksum.ofBytes contents = item.checksum
  unpacks :
    if item.encrypted then
      ∃ given, password = some given ∧
        item.contents container (Text.Utf8.bytesOf given) = .ok contents
    else
      item.dataStart + item.packedSize ≤ container.length ∧
      decodeWhole item.method (item.packed container) = .ok contents

end Zip

/-! ## Opening by index and by name -/

/-- The item is the last one that is a file at the path. -/
def Index.LastAt (items : List Zip.Item) (item : Zip.Item) (path : String) : Prop :=
  ∃ earlier later, items = earlier ++ item :: later ∧ FileAt item path ∧
    ∀ other ∈ later, ¬ FileAt other path

namespace Archive

open Index

variable {archive : Archive} {disk : Disk} {container contents : Bytes} {items : List Zip.Item}
  {item : Zip.Item} {path : String} {password : Option String}

/-- The data of an item that is opened by the index, or by its name as it is written, are those
of the entry. -/
theorem packs_of_sound (hlisted : Zip.items container = .ok items) (hlast : LastAt items item path)
    (hsound : item.Sound container password contents)
    (hname : item.encrypted = false ∨ item.name = path) :
    Packs container path password items contents := by
  obtain ⟨earlier, later, hitems, hat, hlater⟩ := hlast
  refine ⟨hlisted, .ofItem item,
    file?_ofItems.2 ⟨earlier, item, later, hitems, hat, hlater, rfl⟩, ?_⟩
  have hunpacks := hsound.unpacks
  show if item.encrypted then _ else _
  cases hsealed : item.encrypted with
  | false =>
    rw [hsealed] at hunpacks
    exact ⟨hunpacks.1, hunpacks.2, hsound.size, hsound.checksum⟩
  | true =>
    rw [hsealed] at hunpacks
    obtain ⟨given, hgiven, hcontents⟩ := hunpacks
    obtain rfl : item.name = path := hname.resolve_left (by rw [hsealed]; nofun)
    have hin : item ∈ items := by simp [hitems]
    refine ⟨given, hgiven, ?_⟩
    show Zip.unpack container (EntryPath.normal item.name) _ = _
    rw [hat.2.1, Zip.unpack, Zip.itemNamed_eq hlisted, Zip.find?_name hlisted hin]
    exact hcontents

/-- An encrypted entry is opened by its path, as the record of this very name. -/
theorem openEntry_encrypted (hlisted : Zip.items (archive.data.bytes disk) = .ok items)
    (hfile : archive.file? path = some (.ofItem item)) (hpath : EntryPath.normal item.name = path)
    (hsealed : item.encrypted = true) (given : String) :
    archive.openEntry disk path (some given)
      = match items.find? fun other => other.name = path with
        | none => .error (.container .entryMissing)
        | some other =>
          (other.contents (archive.data.bytes disk) (Text.Utf8.bytesOf given)).map
            EntryReader.ofContents := by
  have hencrypted : (Entry.ofItem item).encrypted = true := hsealed
  have hentry : (Entry.ofItem item).path = path := hpath
  simp only [openEntry, hfile, hencrypted, if_true, hentry, Zip.unpack, Zip.itemNamed_eq hlisted]
  cases items.find? fun other => other.name = path with
  | none => rfl
  | some other =>
    simp only [Outcome.mapError_ok, Outcome.ok_bind]
    cases other.contents (archive.data.bytes disk) (Text.Utf8.bytesOf given) <;> rfl

/-- A file of an archive stands for the last record of its container at its path. While the
archive shows the bytes it was indexed from, the file is opened with the data, the size and
the checksum of that record, if the record is not encrypted or its name is written as the path
is. What is opened for an encrypted record is the record of the container whose name is
written as the path is, if there is one. -/
theorem openEntry_record {before : Disk} {maps : Bool} {uri mountPoint : Uri} {entry : Entry}
    (hload : load before maps uri mountPoint = .ok archive)
    (hsame : archive.data.bytes disk = archive.data.bytes before)
    (hfile : archive.file? path = some entry) :
    ∃ items item, Zip.items (archive.data.bytes before) = .ok items ∧ LastAt items item path ∧
      entry = .ofItem item ∧
      (item.encrypted = false ∨ item.name = path →
        ∀ password contents, item.Sound (archive.data.bytes before) password contents →
          ∃ reader, archive.openEntry disk path password = .ok reader ∧
            reader.size = entry.size ∧ Checksum.ofBytes contents = entry.checksum ∧
            reader.At (fun later => archive.data.bytes later = archive.data.bytes before)
              contents 0 ∧
            (reader.fill disk entry.size).1 = .ok contents) ∧
      (item.encrypted = true → ∀ given, archive.openEntry disk path (some given)
        = match items.find? fun other => other.name = path with
          | none => .error (.container .entryMissing)
          | some other =>
            (other.contents (archive.data.bytes before) (Text.Utf8.bytesOf given)).map
              EntryReader.ofContents) := by
  obtain ⟨_, items, _, _, hlisted, hindex, _⟩ := load_eq_ok hload
  rw [file?, hindex] at hfile
  obtain ⟨earlier, item, later, hitems, hat, hlater, rfl⟩ := file?_ofItems.1 hfile
  have hlast : LastAt items item path := ⟨earlier, later, hitems, hat, hlater⟩
  refine ⟨items, item, hlisted, hlast, rfl, ?_, ?_⟩
  · intro hname password contents hsound
    have hpacks := packs_of_sound hlisted hlast hsound hname
    have hbytes : ∀ later, archive.data.bytes later = archive.data.bytes before →
        archive.data.bytes later = archive.data.bytes before := fun _ h => h
    obtain ⟨reader, hopen, hreader⟩ := openEntry_at hpacks hindex hbytes hsame
    obtain ⟨_, hfill, _⟩ := hreader.fill hsame (Entry.ofItem item).size
    have hsize : (Entry.ofItem item).size = contents.length := hsound.size.symm
    refine ⟨reader, hopen, hreader.size.trans hsound.size, hsound.checksum, hreader, ?_⟩
    rw [hfill, hsize, List.drop_zero, List.take_length]
  · intro hsealed given
    rw [← hsame] at hlisted ⊢
    refine openEntry_encrypted hlisted ?_ hat.2.1 hsealed given
    rw [file?, hindex, hfile]

/-! ## Encrypted twins -/

open Server (rootFile smallDisk)

/-- An encrypted record of a stored byte. -/
def lockedItem (name : String) (writtenName : Bytes) (checksum : UInt32) (start dataStart : Nat) :
    Zip.Item where
  name
  writtenName
  remark := ""
  method := .stored
  encrypted := true
  streamed := false
  time := 0
  date := 33
  checksum
  packedSize := 13
  size := 1
  start
  dataStart

/-- A file at the path `k`. -/
def firstTwin : Zip.Item :=
  lockedItem "k" [107] 0x7F6567CB 0 31

/-- Another file at the path `k`, with a roundabout name. -/
def secondTwin : Zip.Item :=
  lockedItem "./k" [46, 47, 107] 0x0862575D 44 77

/-- The only file at the path `m`. -/
def loneItem : Zip.Item :=
  lockedItem "m" [109] 0xE101F268 90 121

/-- The records of a container. -/
def twinItems : List Zip.Item :=
  [firstTwin, secondTwin, loneItem]

/-- The container of these: `j`, `k` and `m`, in this order, all with the password `p`. -/
def twinContainer : Bytes :=
  [80, 75, 3, 4, 10, 0, 1, 0, 0, 0, 0, 0, 33, 0, 203, 103, 101, 127, 13, 0, 0, 0, 1, 0, 0, 0, 1,
    0, 0, 0, 107, 14, 231, 17, 120, 230, 81, 251, 154, 35, 159, 41, 23, 42,
    80, 75, 3, 4, 10, 0, 1, 0, 0, 0, 0, 0, 33, 0, 93, 87, 98, 8, 13, 0, 0, 0, 1, 0, 0, 0, 3, 0,
    0, 0, 46, 47, 107, 14, 231, 17, 120, 230, 81, 251, 154, 35, 159, 41, 96, 142,
    80, 75, 3, 4, 10, 0, 1, 0, 0, 0, 0, 0, 33, 0, 104, 242, 1, 225, 13, 0, 0, 0, 1, 0, 0, 0, 1,
    0, 0, 0, 109, 14, 231, 17, 120, 230, 81, 251, 154, 35, 159, 41, 137, 32,
    80, 75, 1, 2, 20, 0, 10, 0, 1, 0, 0, 0, 0, 0, 33, 0, 203, 103, 101, 127, 13, 0, 0, 0, 1, 0,
    0, 0, 1, 0, 0, 0, 0, 0, 0, 0, 0, 0, 0, 0, 0, 0, 0, 0, 0, 0, 107,
    80, 75, 1, 2, 20, 0, 10, 0, 1, 0, 0, 0, 0, 0, 33, 0, 93, 87, 98, 8, 13, 0, 0, 0, 1, 0, 0, 0,
    3, 0, 0, 0, 0, 0, 0, 0, 0, 0, 0, 0, 0, 0, 44, 0, 0, 0, 46, 47, 107,
    80, 75, 1, 2, 20, 0, 10, 0, 1, 0, 0, 0, 0, 0, 33, 0, 104, 242, 1, 225, 13, 0, 0, 0, 1, 0, 0,
    0, 1, 0, 0, 0, 0, 0, 0, 0, 0, 0, 0, 0, 0, 0, 90, 0, 0, 0, 109,
    80, 75, 5, 6, 0, 0, 0, 0, 3, 0, 3, 0, 143, 0, 0, 0, 134, 0, 0, 0, 0, 0]

theorem items_twins : Zip.items twinContainer = .ok twinItems := by decide +kernel

theorem load_twins : ∃ archive, load (smallDisk twinContainer) true (rootFile "/t.zip")
      (rootFile "/") = .ok archive ∧
    archive.data.bytes (smallDisk twinContainer) = twinContainer ∧
    archive.index = .ofItems twinItems := by
  have hpath : (rootFile "/t.zip").nativePath = "/t.zip" := by decide
  obtain ⟨data, hdata, hbytes⟩ := Scene.loadData_of_file true
    (show (smallDisk twinContainer).content? 1 = some (.file twinContainer) from rfl)
  exact ⟨_, load_of_items (by rw [hpath, Server.locate_smallDisk]) hdata
    (by rw [hbytes, items_twins]), hbytes, rfl⟩

/-- The password opens the file at `m`, as its record says. -/
theorem openEntry_record_locked :
    ∃ archive reader, load (smallDisk twinContainer) true (rootFile "/t.zip") (rootFile "/")
        = .ok archive ∧
      archive.file? "m" = some (.ofItem loneItem) ∧
      archive.openEntry (smallDisk twinContainer) "m" (some "p") = .ok reader ∧
      reader.size = 1 ∧ (reader.fill (smallDisk twinContainer) 1).1 = .ok [109] := by
  obtain ⟨archive, hload, hbytes, hindex⟩ := load_twins
  have hfile : archive.file? "m" = some (.ofItem loneItem) := by
    rw [file?, hindex]
    decide
  obtain ⟨items, item, hlisted, ⟨earlier, later, hitems, _⟩, hentry, hopens, _⟩ :=
    openEntry_record hload rfl hfile
  rw [hbytes] at hlisted hopens
  obtain rfl : twinItems = items := Except.ok.inj (items_twins.symm.trans hlisted)
  have hitem : item = loneItem := by
    have hin : item ∈ twinItems := by simp [hitems]
    have hstart := congrArg Entry.dataStart hentry
    simp only [twinItems, List.mem_cons, List.not_mem_nil, or_false] at hin
    rcases hin with rfl | rfl | rfl
    · exact absurd hstart (by decide)
    · exact absurd hstart (by decide)
    · rfl
  rw [hitem] at hopens
  have hsound : loneItem.Sound twinContainer (some "p") [109] :=
    ⟨rfl, by decide, "p", rfl, by decide +kernel⟩
  obtain ⟨reader, hopen, hsize, _, _, hfill⟩ := hopens (.inr rfl) _ _ hsound
  exact ⟨archive, reader, hload, hfile, hopen, hsize, hfill⟩

/-- The file at `k` stands for the second record, with its size and its checksum, and the data
of that record are sound. Yet the password opens the data of the first one. -/
theorem openEntry_twin :
    ∃ archive, load (smallDisk twinContainer) true (rootFile "/t.zip") (rootFile "/")
        = .ok archive ∧
      Zip.items (archive.data.bytes (smallDisk twinContainer)) = .ok twinItems ∧
      LastAt twinItems secondTwin "k" ∧
      archive.file? "k" = some (.ofItem secondTwin) ∧
      secondTwin.Sound twinContainer (some "p") [107] ∧
      archive.openEntry (smallDisk twinContainer) "k" (some "p") = .ok (.ofContents [106]) ∧
      ((EntryReader.ofContents [106]).fill (smallDisk twinContainer) 1).1 = .ok [106] := by
  obtain ⟨archive, hload, hbytes, hindex⟩ := load_twins
  have hlisted : Zip.items (archive.data.bytes (smallDisk twinContainer)) = .ok twinItems := by
    rw [hbytes, items_twins]
  have hfile : archive.file? "k" = some (.ofItem secondTwin) := by
    rw [file?, hindex]
    decide
  have hlast : LastAt twinItems secondTwin "k" :=
    ⟨[firstTwin], [loneItem], rfl, by decide, by decide⟩
  refine ⟨archive, hload, hlisted, hlast, hfile,
    ⟨rfl, by decide, "p", rfl, by decide +kernel⟩, ?_, by decide⟩
  have hfirst : firstTwin.contents twinContainer (Text.Utf8.bytesOf "p") = .ok [106] := by
    decide +kernel
  -- the path is looked up as a name, and only the first record has it
  rw [openEntry_encrypted hlisted hfile (by decide) rfl, hbytes]
  show (firstTwin.contents twinContainer (Text.Utf8.bytesOf "p")).map EntryReader.ofContents = _
  rw [hfirst]
  rfl

end Archive

end ArchiveVfs
