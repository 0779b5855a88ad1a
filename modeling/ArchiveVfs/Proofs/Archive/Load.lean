import ArchiveVfs.Archive.Basic
import ArchiveVfs.Proofs.Outcome

/-!
# What loading an archive gives

`load` finds the file of the container, takes its bytes, reads them as a zip
container and indexes what it lists. `load_eq_ok` says all that holds of an archive
it returns, `load_eq_error` that every failure blames the container. `openEntry_eq_ok` says what
the reader of an entry is.
-/

namespace ArchiveVfs.Archive

variable {disk : Disk} {maps : Bool} {uri mountPoint : Uri}

/-- An archive that was loaded stands for its file, its bytes and their index. -/
theorem load_eq_ok {archive : Archive} (h : load disk maps uri mountPoint = .ok archive) :
    ∃ node items, disk.locate uri.nativePath = .ok node ∧
      loadData disk maps node = .ok archive.data ∧
      Zip.items (archive.data.bytes disk) = .ok items ∧
      archive.index = .ofItems items ∧ archive.uri = uri ∧
      archive.mountPoint
        = String.ofList (Text.dropTrailing '/' mountPoint.localPath.toList) := by
  unfold load at h
  cases hnode : disk.locate uri.nativePath with
  | error fault =>
    rw [hnode] at h
    cases h
  | ok node =>
    cases hdata : loadData disk maps node with
    | error fault =>
      simp only [hnode, Except.bind, hdata, Outcome.mapError_error] at h
      cases h
    | ok data =>
      simp only [hnode, Except.bind, hdata, Outcome.mapError_ok, bind] at h
      cases hitems : Zip.items (data.bytes disk) with
      | error fault =>
        rw [hitems] at h
        cases h
      | ok items =>
        rw [hitems] at h
        cases h
        exact ⟨node, items, rfl, hdata, hitems, rfl, rfl, rfl⟩

/-- A container that lists its files is loaded. -/
theorem load_of_items {node : NodeId} {data : ArchiveData} {items : List Zip.Item}
    (hnode : disk.locate uri.nativePath = .ok node) (hdata : loadData disk maps node = .ok data)
    (hitems : Zip.items (data.bytes disk) = .ok items) :
    load disk maps uri mountPoint = .ok {
      uri
      mountPoint := String.ofList (Text.dropTrailing '/' mountPoint.localPath.toList)
      data
      index := .ofItems items } := by
  rw [load, hnode]
  simp only [Except.bind, hdata, Outcome.mapError_ok, Outcome.ok_bind, hitems]
  rfl

/-- An archive stands for the URI it was loaded from. -/
theorem uri_of_load {archive : Archive} (h : load disk maps uri mountPoint = .ok archive) :
    archive.uri = uri := by
  obtain ⟨_, _, _, _, _, _, huri, _⟩ := load_eq_ok h
  exact huri

/-- What keeps an archive from being loaded is a fault of its file or its bytes. -/
theorem load_eq_error {error : Error} (h : load disk maps uri mountPoint = .error error) :
    ∃ fault, error = .badArchive uri fault := by
  unfold load at h
  cases hdata : (disk.locate uri.nativePath).bind (loadData disk maps) with
  | error fault =>
    rw [hdata] at h
    cases h
    exact ⟨.system fault, rfl⟩
  | ok data =>
    rw [hdata] at h
    simp only [Outcome.mapError_ok, bind, Except.bind] at h
    cases hitems : Zip.items (data.bytes disk) with
    | error fault =>
      rw [hitems] at h
      cases h
      exact ⟨.malformed, rfl⟩
    | ok items =>
      rw [hitems] at h
      cases h

/-- All that opening an entry can give: a reader of decrypted contents, or one of a window of the
container, which lies in it whatever the record says. -/
theorem openEntry_window {archive : Archive} {path : String} {password : Option String}
    {reader : EntryReader} (h : archive.openEntry disk path password = .ok reader) :
    ∃ entry, archive.file? path = some entry ∧
      ((entry.encrypted = true ∧ ∃ contents, reader = .ofContents contents) ∨
        (entry.encrypted = false ∧ entry.dataStart + entry.packedSize ≤ archive.data.size ∧
          (reader = .ofStored archive.data entry.dataStart (entry.dataStart + entry.packedSize)
              entry.size entry.checksum ∨
            reader = .ofDeflated archive.data entry.dataStart (entry.dataStart + entry.packedSize)
              entry.size entry.checksum))) := by
  cases hfile : archive.file? path with
  | none =>
    simp only [openEntry, hfile] at h
    cases h
  | some entry =>
    simp only [openEntry, hfile] at h
    refine ⟨entry, rfl, ?_⟩
    cases hsealed : entry.encrypted with
    | true =>
      simp only [hsealed, if_true] at h
      cases password with
      | none => cases h
      | some password =>
        obtain ⟨contents, _, hreader⟩ := Outcome.bind_eq_ok.1 h
        exact .inl ⟨rfl, contents, (Except.ok.inj hreader).symm⟩
    | false =>
      simp only [hsealed] at h
      by_cases hshort : archive.data.size < entry.dataStart + entry.packedSize
      · simp only [if_pos hshort] at h
        cases h
      · simp only [if_neg hshort] at h
        refine .inr ⟨rfl, Nat.le_of_not_lt hshort, ?_⟩
        cases hmethod : entry.method with
        | stored =>
          rw [hmethod] at h
          exact .inl (Except.ok.inj h).symm
        | deflated =>
          rw [hmethod] at h
          exact .inr (Except.ok.inj h).symm
        | other number =>
          rw [hmethod] at h
          cases h

/-- A reader that is opened is one of the entry at the path. -/
theorem openEntry_eq_ok {archive : Archive} {path : String} {password : Option String}
    {reader : EntryReader} (h : archive.openEntry disk path password = .ok reader) :
    ∃ entry, archive.file? path = some entry ∧
      ((entry.encrypted = true ∧ ∃ contents, reader = .ofContents contents) ∨
        (entry.encrypted = false ∧ ∃ finish,
          (reader = .ofStored archive.data entry.dataStart finish entry.size entry.checksum ∨
            reader =
              .ofDeflated archive.data entry.dataStart finish entry.size entry.checksum))) := by
  obtain ⟨entry, hfile, hsealed | ⟨hplain, _, hreader⟩⟩ := openEntry_window h
  · exact ⟨entry, hfile, .inl hsealed⟩
  · exact ⟨entry, hfile, .inr ⟨hplain, _, hreader⟩⟩

end ArchiveVfs.Archive
