import ArchiveVfs.Proofs.Archive.EntryPath
import ArchiveVfs.Proofs.Archive.Indexing
import ArchiveVfs.Proofs.Archive.Load
import ArchiveVfs.Proofs.Archive.MountHistory
import ArchiveVfs.Stream.Entry

/-!
# From a path to an entry and back

A look-up takes the first archive in the list that has the file, and names the entry by
a URI. A stream over that URI leads back to the same archive and the same
entry (`tryOpen_mounted`).
-/

namespace ArchiveVfs

/-! ## Which archive has a file -/

/-- The archive has a file for a local path, at `inner`. -/
def Archive.Holds (archive : Archive) (localPath inner : String) : Prop :=
  archive.innerPath localPath = some inner ∧ (archive.file? inner).isSome = true

namespace Mounts

variable {mounts : Mounts} {has : Archive → String → Bool} {uri : Uri}

/-- A look-up finds something exactly if some archive has it. -/
theorem findWith_isSome : (mounts.findWith has uri).isSome = true ↔ uri.isFile = true ∧
    ∃ archive ∈ mounts.archives, ∃ inner,
      archive.innerPath uri.localPath = some inner ∧ has archive inner = true := by
  rw [findWith]
  by_cases hfile : uri.isFile = true
  · rw [if_pos hfile, List.findSome?_isSome_iff]
    simp only [hfile, true_and, Option.isSome_map, Option.isSome_filter,
      Option.any_eq_true]
  · rw [if_neg hfile]
    simp [hfile]

/-- What a look-up finds is in the list and has what was asked for. -/
theorem of_findWith {archive : Archive} {inner : String}
    (h : mounts.findWith has uri = some (archive, inner)) :
    uri.isFile = true ∧ archive ∈ mounts.archives ∧
      archive.innerPath uri.localPath = some inner ∧ has archive inner = true := by
  rw [findWith] at h
  split at h
  next hfile =>
    obtain ⟨found, hin, hfound⟩ := List.exists_of_findSome?_eq_some h
    obtain ⟨path, hpath, heq⟩ := Option.map_eq_some_iff.1 hfound
    obtain ⟨rfl, rfl⟩ := Prod.mk.inj heq
    obtain ⟨hinner, hhas⟩ := Option.filter_eq_some_iff.1 hpath
    exact ⟨hfile, hin, hinner, hhas⟩
  next => cases h

/-- A look-up finds what the archive mounted last has. -/
theorem findWith_first {archive : Archive} {later : List Archive} {inner : String}
    (hlist : mounts.archives = archive :: later) (hfile : uri.isFile = true)
    (hinner : archive.innerPath uri.localPath = some inner) (hhas : has archive inner = true) :
    mounts.findWith has uri = some (archive, inner) := by
  rw [findWith, if_pos hfile, hlist, List.findSome?_cons, hinner, Option.filter_some, if_pos hhas]
  rfl

/-- What a look-up finds in one archive. -/
def foundIn (localPath : String) (archive : Archive) : Option (Archive × String) :=
  ((archive.innerPath localPath).filter fun path => (archive.file? path).isSome).map
    fun path => (archive, path)

theorem findWithFile_eq (hfile : uri.isFile = true) :
    mounts.findWithFile uri = mounts.archives.findSome? (foundIn uri.localPath) := by
  rw [findWithFile, findWith, if_pos hfile]
  rfl

theorem foundIn_of_holds {archive : Archive} {localPath inner : String}
    (h : archive.Holds localPath inner) : foundIn localPath archive = some (archive, inner) := by
  rw [foundIn, h.1, Option.filter_some, if_pos h.2]
  rfl

theorem foundIn_eq_none {archive : Archive} {localPath : String}
    (h : ∀ path, ¬ archive.Holds localPath path) : foundIn localPath archive = none := by
  rw [foundIn, Option.map_eq_none_iff, Option.filter_eq_none_iff]
  intro path hpath hfound
  exact h path ⟨hpath, hfound⟩

/-- A look-up finds the first archive that has the file. -/
theorem findWithFile_eq_some {earlier later : List Archive} {archive : Archive} {inner : String}
    (hfile : uri.isFile = true) (hlist : mounts.archives = earlier ++ archive :: later)
    (hearlier : ∀ other ∈ earlier, ∀ path, ¬ other.Holds uri.localPath path)
    (hholds : archive.Holds uri.localPath inner) :
    mounts.findWithFile uri = some (archive, inner) := by
  have hskip : earlier.findSome? (foundIn uri.localPath) = none :=
    List.findSome?_eq_none_iff.2 fun other hin => foundIn_eq_none (hearlier other hin)
  rw [findWithFile_eq hfile, hlist, List.findSome?_append, hskip, List.findSome?_cons,
    foundIn_of_holds hholds]
  rfl

/-- A look-up finds nothing if no archive has the file. -/
theorem findWithFile_eq_none (hfile : uri.isFile = true)
    (hnone : ∀ archive ∈ mounts.archives, ∀ path, ¬ archive.Holds uri.localPath path) :
    mounts.findWithFile uri = none := by
  rw [findWithFile_eq hfile, List.findSome?_eq_none_iff]
  exact fun archive hin => foundIn_eq_none (hnone archive hin)

end Mounts

/-! ## Paths and URIs of entries -/

/-- Paths inside archives are in normal form. -/
theorem Archive.normal_of_innerPath {archive : Archive} {localPath inner : String}
    (h : archive.innerPath localPath = some inner) : EntryPath.normal inner = inner := by
  rw [innerPath] at h
  split at h
  · obtain rfl := Option.some.inj h
    decide
  · split at h
    · obtain rfl := Option.some.inj h
      rw [EntryPath.normal, String.toList_ofList, EntryPath.normalChars_normalChars]
    · cases h

/-- No file has the empty path. -/
theorem Index.file?_empty (items : List Zip.Item) : (ofItems items).file? "" = none := by
  rw [← Option.not_isSome_iff_eq_none, isSome_file?_ofItems]
  rintro ⟨_, _, _, _, hsome⟩
  exact hsome rfl

/-- No file of an archive that was loaded has the empty path. -/
theorem Archive.file?_empty_of_load {disk : Disk} {maps : Bool} {uri mountPoint : Uri}
    {archive : Archive} (h : load disk maps uri mountPoint = .ok archive) :
    archive.file? "" = none := by
  obtain ⟨_, items, _, _, _, hindex, _⟩ := load_eq_ok h
  rw [file?, hindex]
  exact Index.file?_empty items

namespace Uri

variable (uri : Uri) (inner : String)

theorem scheme_entryOf : (uri.entryOf inner).scheme = archiveScheme := by
  show lowerCase archiveScheme = archiveScheme
  decide

theorem queryValue_entryOf : (uri.entryOf inner).queryValue entryKey = some inner := by
  simp [entryOf, withQuery, withPort, ofParts, queryValue]

theorem queryValue_password_entryOf : (uri.entryOf inner).queryValue passwordKey = none := by
  simp [entryOf, withQuery, withPort, ofParts, queryValue, entryKey, passwordKey]

/-- The archive file of an entry is the one that the entry was named from. -/
theorem archiveFile_entryOf {uri : Uri} (hfile : uri.isFile = true) (hquery : uri.query = [])
    (hfragment : uri.fragment = none) : (uri.entryOf inner).archiveFile = uri := by
  obtain ⟨scheme, host, port, localPath, query, fragment⟩ := uri
  obtain rfl : scheme = fileScheme := of_decide_eq_true hfile
  obtain rfl : query = [] := hquery
  obtain rfl : fragment = none := hfragment
  have hlower : lowerCase fileScheme = fileScheme := by decide
  show ({ scheme := lowerCase fileScheme, host, port, localPath } : Uri) = _
  rw [hlower]

end Uri

/-! ## Opening -/

/-- A stream over an entry of a mounted archive opens that entry of that archive. -/
theorem EntryStream.tryOpen_mounted {mounts : Mounts} (disk : Disk) {archive : Archive}
    {inner : String} (horderly : mounts.Orderly) (hin : archive ∈ mounts.archives)
    (hfile : archive.uri.isFile = true) (hquery : archive.uri.query = [])
    (hfragment : archive.uri.fragment = none) (hnormal : EntryPath.normal inner = inner)
    (hsome : inner ≠ "") :
    ({ uri := archive.entryUri inner } : EntryStream).tryOpen mounts disk
      = (archive.openEntry disk inner none).map fun reader =>
        { uri := archive.entryUri inner, reader := some reader, size := reader.size } := by
  have hpath : entryPath? (archive.entryUri inner) = some inner := by
    rw [entryPath?, Archive.entryUri, Uri.queryValue_entryOf]
    have hnil : inner.toList ≠ [] := fun hnil => hsome (String.toList_inj.1 hnil)
    simp [hnormal, hnil]
  -- the archive in the list is found again, and nothing is loaded
  have hfind : mounts.findOrLoad disk (archive.entryUri inner).archiveFile = .ok archive := by
    rw [Archive.entryUri, Uri.archiveFile_entryOf inner hfile hquery hfragment, Mounts.findOrLoad,
      (horderly.shows.find archive.uri archive).2 ⟨hin, rfl⟩]
  have hpassword : (archive.entryUri inner).queryValue Uri.passwordKey = none :=
    Uri.queryValue_password_entryOf archive.uri inner
  simp only [tryOpen, hpath, hfind, hpassword]
  show (archive.openEntry disk inner none >>= fun reader => _) = _
  cases archive.openEntry disk inner none <;> rfl

end ArchiveVfs
