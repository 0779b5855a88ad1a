import ArchiveVfs.Disk.Contents

/-!
# Contents of files

What a disk tells of a node that is a file: its size, its bytes, what reads find and what writes
leave.
-/

namespace ArchiveVfs

/-- Bytes that leave no gap lengthen the data by what reaches behind their end. -/
theorem Bytes.length_overwrite {data : Bytes} {offset : Nat} (hwithin : offset ≤ data.length)
    (new : Bytes) : (data.overwrite offset new).length = max data.length (offset + new.length) := by
  simp only [overwrite, List.length_append, List.length_take, List.length_replicate,
    List.length_drop]
  omega

namespace Disk

variable {disk : Disk} {node : NodeId} {data : Bytes}

theorem isFile_iff : disk.isFile node = true ↔ ∃ data, disk.content? node = some (.file data) := by
  rw [isFile]
  constructor
  · intro h
    split at h
    · rename_i data hdata
      exact ⟨data, hdata⟩
    · cases h
  · rintro ⟨data, hdata⟩
    rw [hdata]

theorem entries?_eq_some {entries : Table NodeId} : disk.entries? node = some entries ↔
    ∃ parent, disk.content? node = some (.directory entries parent) := by
  rw [entries?]
  split
  next found parent hdir => simp [hdir, eq_comm]
  next hother =>
    constructor
    · intro h
      cases h
    · rintro ⟨parent, h⟩
      exact absurd h (hother entries parent)

theorem isDirectory_iff : disk.isDirectory node = true ↔
    ∃ entries parent, disk.content? node = some (.directory entries parent) := by
  rw [isDirectory, Option.isSome_iff_exists]
  exact exists_congr fun entries => entries?_eq_some

theorem size_of_file (h : disk.content? node = some (.file data)) :
    disk.size node = data.length := by
  rw [size, h]

theorem bytes_of_file (h : disk.content? node = some (.file data)) : disk.bytes node = data := by
  rw [bytes, h]

/-- A view has the size that it was mapped with, whatever the file holds. -/
theorem length_view (disk : Disk) (node : NodeId) (size : Nat) :
    (disk.view node size).length = size := by
  rw [view, List.length_append, List.length_replicate, List.length_take]
  omega

/-- A view as long as the file shows its bytes. -/
theorem view_of_file (h : disk.content? node = some (.file data)) :
    disk.view node data.length = data := by
  simp [view, bytes_of_file h]

theorem readAt_of_file (h : disk.content? node = some (.file data)) (offset count : Nat) :
    disk.readAt node offset count = .ok ((data.drop offset).take count) := by
  rw [readAt, h]

/-- A node without bytes has none to hand out; a directory is not one. -/
theorem readAt_of_empty (h : disk.size node = 0) : disk.readAt node 0 0 = .ok [] := by
  rw [size] at h
  rw [readAt]
  cases hcontent : disk.content? node with
  | none => rfl
  | some content =>
    rw [hcontent] at h
    cases content with
    | file data => rfl
    | directory entries parent => cases h
    | link target => rfl
    | device kind => cases kind <;> rfl

/-! ## Writing -/

theorem setBytes_node (h : disk.content? node = some (.file data)) (new : Bytes) :
    (disk.setBytes node new).content? node = some (.file new) := by
  rw [content?, Option.map_eq_some_iff] at h
  obtain ⟨found, hfound, -⟩ := h
  simp [content?, setBytes, update, Array.getElem?_modify, hfound]

/-- Writing within a file succeeds: it overwrites the bytes, or there is nothing to write. -/
theorem writeAt_of_file (h : disk.content? node = some (.file data)) {offset : Nat}
    (hwithin : offset ≤ data.length) (new : Bytes) :
    (disk.writeAt node offset new = .ok disk ∧ data.overwrite offset new = data) ∨
      disk.writeAt node offset new = .ok (disk.setBytes node (data.overwrite offset new)) := by
  cases new with
  | nil => exact .inl ⟨rfl, by simp [Bytes.overwrite, Nat.sub_eq_zero_of_le hwithin]⟩
  | cons first rest =>
    right
    simp only [writeAt, h]
    rfl

/-- What is no file stays as it is when it is written. -/
theorem writeAt_eq_ok (hfile : disk.isFile node = false)
    {later : Disk} {offset : Nat} {new : Bytes}
    (hwrite : disk.writeAt node offset new = .ok later) : later = disk := by
  rw [isFile] at hfile
  rw [writeAt] at hwrite
  split at hwrite
  · exact (Except.ok.inj hwrite).symm
  · split at hwrite
    next data hdata =>
      rw [hdata] at hfile
      cases hfile
    next => cases hwrite
    next => cases hwrite
    next => exact (Except.ok.inj hwrite).symm

end Disk

end ArchiveVfs
