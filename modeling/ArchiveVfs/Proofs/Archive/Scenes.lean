import ArchiveVfs.Archive.Mounts
import ArchiveVfs.Proofs.Archive.EntryCursor
import ArchiveVfs.Proofs.Archive.Load
import ArchiveVfs.Proofs.Disk.Contents
import ArchiveVfs.Proofs.Outcome

/-!
# Opening entries again and again

An entry is opened from an archive that is mounted, or else from the file of its
container, which is loaded for that. Both give a reader of the same contents as long as
the bytes of the container are the same: `Scene.Has` is what must hold at a moment for
the entry to be opened, `openEntry_at` what the reader then is.
-/

namespace ArchiveVfs

/-- By the bytes of a container the entry at a path has these contents. An entry that is
not encrypted has the recorded size and checksum; an encrypted one is opened by the
password, and is checked when it is unpacked. -/
structure Packs (container : Bytes) (path : String) (password : Option String)
    (items : List Zip.Item) (contents : Bytes) : Prop where
  listed : Zip.items container = .ok items
  entry : ∃ entry, (Index.ofItems items).file? path = some entry ∧
    if entry.encrypted then
      ∃ given, password = some given ∧
        Zip.unpack container entry.path (Text.Utf8.bytesOf given) = .ok contents
    else
      entry.dataStart + entry.packedSize ≤ container.length ∧
      Zip.decodeWhole entry.method ((container.drop entry.dataStart).take entry.packedSize)
        = .ok contents ∧
      contents.length = entry.size ∧ Checksum.ofBytes contents = entry.checksum

variable {on : Disk → Prop} {disk : Disk} {container contents : Bytes} {path : String}
  {password : Option String} {items : List Zip.Item}

theorem ArchiveData.length_bytes (data : ArchiveData) (disk : Disk) :
    (data.bytes disk).length = data.size := by
  cases data with
  | mapped node size => exact disk.length_view node size
  | loaded data => rfl

/-- Zeros are no container: the mark of its end is not among them. -/
theorem Zip.items_replicate_zero (count : Nat) :
    Zip.items (List.replicate count 0) = .error (.malformed .noEnd) := by
  have hnone (offset : Nat) :
      Bytes.offsetsOf.go endMark offset [] (List.replicate count 0) = [] := by
    induction count generalizing offset with
    | zero => rfl
    | succ count ih =>
      rw [List.replicate_succ, Bytes.offsetsOf.go]
      exact ih (offset + 1)
  rw [Zip.items, records, Bytes.offsetsOf, hnone]
  rfl

/-- What is mapped from a node that is no file shows zeros, so what shows a container is mapped
from a file. -/
theorem ArchiveData.isFile_of_items {node : NodeId} {size : Nat}
    (hlisted : Zip.items ((ArchiveData.mapped node size).bytes disk) = .ok items) :
    disk.isFile node = true := by
  cases hfile : disk.isFile node with
  | true => rfl
  | false =>
    rw [Disk.isFile] at hfile
    have hzeros : (ArchiveData.mapped node size).bytes disk = List.replicate size 0 := by
      rw [bytes, Disk.view, Disk.bytes]
      split
      next data hdata =>
        rw [hdata] at hfile
        cases hfile
      next => simp
    rw [hzeros, Zip.items_replicate_zero] at hlisted
    cases hlisted

theorem decodeWhole_deflated {packed : Bytes}
    (h : Zip.decodeWhole .deflated packed = .ok contents) :
    (Deflate.inflate packed).fault = none ∧ (Deflate.inflate packed).bytes.toList = contents := by
  simp only [Zip.decodeWhole] at h
  split at h
  · rename_i hfault
    exact ⟨hfault, Except.ok.inj h⟩
  · cases h
  · cases h

namespace Archive

variable {archive : Archive}

/-- A reader that has just been opened stands at the start of the contents. -/
theorem openEntry_at (hpacks : Packs container path password items contents)
    (hindex : archive.index = .ofItems items)
    (hbytes : ∀ disk, on disk → archive.data.bytes disk = container) (hdisk : on disk) :
    ∃ reader, archive.openEntry disk path password = .ok reader ∧ reader.At on contents 0 := by
  obtain ⟨entry, hfile, hentry⟩ := hpacks.entry
  have hlooked : archive.file? path = some entry := by
    rw [file?, hindex]
    exact hfile
  rw [openEntry]
  simp only [hlooked]
  by_cases hsealed : entry.encrypted = true
  · rw [if_pos hsealed] at hentry
    obtain ⟨given, hgiven, hunpack⟩ := hentry
    simp only [if_pos hsealed, hgiven, hbytes disk hdisk, hunpack]
    refine ⟨.ofContents contents, rfl, .decoded, rfl, rfl, Nat.zero_le _, rfl, ?_⟩
    intro checksum hchecksum
    cases hchecksum
  · rw [if_neg hsealed] at hentry
    obtain ⟨hinside, hdecode, hsize, hsum⟩ := hentry
    have hroom : ¬ archive.data.size < entry.dataStart + entry.packedSize := by
      rw [← archive.data.length_bytes disk, hbytes disk hdisk]
      omega
    have hwindow : ∀ disk, on disk → archive.data.window disk entry.dataStart
        (entry.dataStart + entry.packedSize)
          = (container.drop entry.dataStart).take entry.packedSize := by
      intro disk hdisk
      rw [ArchiveData.window, hbytes disk hdisk, Nat.add_sub_cancel_left]
    simp only [if_neg hsealed, if_neg hroom]
    have hlength : ((container.drop entry.dataStart).take entry.packedSize).length
        ≤ entry.dataStart + entry.packedSize - entry.dataStart := by
      rw [Nat.add_sub_cancel_left]
      exact List.length_take_le _ _
    generalize (container.drop entry.dataStart).take entry.packedSize = packed
      at hdecode hwindow hlength
    cases hmethod : entry.method with
    | stored =>
      rw [hmethod] at hdecode
      obtain rfl : packed = contents := Except.ok.inj hdecode
      refine ⟨.ofStored _ _ _ _ _, rfl, .stored hwindow, hsize.symm, rfl, Nat.zero_le _, rfl, ?_⟩
      intro checksum hchecksum
      obtain rfl := Option.some.inj hchecksum
      exact hsum
    | deflated =>
      rw [hmethod] at hdecode
      obtain ⟨hwhole, hcontents⟩ := decodeWhole_deflated hdecode
      refine ⟨.ofDeflated _ _ _ _ _, rfl, .deflated hwindow hwhole hcontents
        (Deflate.Supply.ofSize_serves hlength), hsize.symm, rfl, Nat.zero_le _, rfl, ?_⟩
      intro checksum hchecksum
      obtain rfl := Option.some.inj hchecksum
      exact hsum
    | other number =>
      rw [hmethod] at hdecode
      cases hdecode

end Archive

/-! ## The same bytes at every moment -/

/-- What a call finds: the registry of archives and the disk at that moment. -/
structure Scene where
  mounts : Mounts
  disk : Disk

namespace Scene

variable {scene : Scene} {file : Uri}

/-- The archive of a container, as an entry stream finds it when it is opened. -/
def archive (scene : Scene) (file : Uri) : Except Error Archive :=
  scene.mounts.findOrLoad scene.disk file

/-- At that moment the container has these bytes, as a mounted archive that was indexed from
them or, where it is not mounted, as a file. -/
inductive Has (file : Uri) (container : Bytes) (items : List Zip.Item) (scene : Scene) : Prop where
  | mounted {archive : Archive} (hfound : scene.mounts.find? file = some archive)
      (hindex : archive.index = .ofItems items)
      (hbytes : archive.data.bytes scene.disk = container)
  | unmounted {node : NodeId} (hnone : scene.mounts.find? file = none)
      (hlocate : scene.disk.locate file.nativePath = .ok node)
      (hfile : scene.disk.content? node = some (.file container))

theorem loadData_of_file (maps : Bool) {node : NodeId}
    (hfile : disk.content? node = some (.file container)) :
    ∃ data, Archive.loadData disk maps node = .ok data ∧ data.bytes disk = container := by
  have hsize := Disk.size_of_file hfile
  rw [Archive.loadData]
  split
  · refine ⟨.mapped node (disk.size node), rfl, ?_⟩
    simp [ArchiveData.bytes, Disk.view_of_file hfile, hsize]
  · refine ⟨.loaded container, ?_, rfl⟩
    rw [Disk.readAt_of_file hfile, hsize]
    simp [Except.map]

/-- An archive is found or opened, with the bytes and their index. -/
theorem Has.archive (h : scene.Has file container items)
    (hlisted : Zip.items container = .ok items) :
    ∃ archive, scene.archive file = .ok archive ∧ archive.index = .ofItems items ∧
      archive.data.bytes scene.disk = container := by
  cases h with
  | @mounted archive hfound hindex hbytes =>
    refine ⟨archive, ?_, hindex, hbytes⟩
    rw [Scene.archive, Mounts.findOrLoad, hfound]
  | unmounted hnone hlocate hfile =>
    obtain ⟨data, hload, hbytes⟩ := loadData_of_file scene.mounts.maps hfile
    let mountPoint := Text.dropTrailing '/' (file.parent.getD file).localPath.toList
    refine ⟨⟨file, String.ofList mountPoint, data, .ofItems items⟩, ?_, rfl, hbytes⟩
    rw [Scene.archive, Mounts.findOrLoad, hnone]
    exact Archive.load_of_items hlocate hload (by rw [hbytes, hlisted])

end Scene

end ArchiveVfs
