import ArchiveVfs.Proofs.Stream.Delivering
import ArchiveVfs.Server.Change

/-!
# Files that no archive hides

`Disk.fileContents` and `Disk.fileChecksum` are what the disk itself has of a file. A
server whose stream for a path is that over the file gives the same
(`contents_of_file`, `checksum_of_file`): however the file is cut into pieces, the
register has taken all of it in the end.
-/

namespace ArchiveVfs

namespace Disk

/-- The node that opening a file finds. -/
def openToRead (disk : Disk) (uri : Uri) : Except Error NodeId :=
  (disk.locate uri.nativePath).mapError ({ uri } : FileStream).openError

/-- Reads from the beginning of a node. -/
def readFirst (disk : Disk) (node : NodeId) (count : Nat) : Except Error Bytes :=
  (disk.readAt node 0 count).mapError fun fault => .transfer (.system fault)

/-- The contents of a file. -/
def fileContents (disk : Disk) (uri : Uri) : Except Error Bytes := do
  let node ← disk.openToRead uri
  disk.readFirst node (disk.size node)

/-- The checksum of a file. A device, which has no size, is asked for `chunk` bytes. -/
def fileChecksum (disk : Disk) (uri : Uri) (chunk : Nat) : Except Error UInt32 := do
  let node ← disk.openToRead uri
  (disk.readFirst node (max chunk (disk.size node))).map Checksum.ofBytes

end Disk

namespace FileStream

/-- A stream over an open node that is at `position`. -/
def reading (disk : Disk) (uri : Uri) (node : NodeId) (position : Nat) : FileStream where
  uri
  node := some node
  size := disk.size node
  position

theorem tryOpen_read (disk : Disk) (uri : Uri) :
    ({ uri } : FileStream).tryOpen disk
      = (disk.openToRead uri).map fun node => (reading disk uri node 0, disk) := by
  simp only [tryOpen, isOpen, Disk.openNode, Disk.openToRead]
  cases disk.locate uri.nativePath <;> rfl

theorem read_reading {disk : Disk} {uri : Uri} {node : NodeId} {position count : Nat}
    (hcount : count ≠ 0) :
    (reading disk uri node position).read disk count
      = ((disk.readAt node position count).mapError fun fault => .transfer (.system fault)).map
        fun found => (found, reading disk uri node (position + found.length)) := by
  simp only [read, reading, AccessMode.canRead, if_neg hcount]
  cases disk.readAt node position count <;> rfl

end FileStream

namespace Server

open FileStream (reading)

variable {disk : Disk} {uri : Uri} {node : NodeId}

/-- The rounds of a checksum take what is left of the bytes of a stream. -/
theorem checksumRounds_delivers {on : Disk → Prop} {stream : Stream} {data : Bytes}
    {position : Nat} (h : stream.Delivers on data position) (hdisk : on disk) {chunk : Nat}
    (hchunk : 0 < chunk) (rounds : Nat) (register : UInt32)
    (hrounds : data.length < position + rounds) :
    checksumRounds disk chunk rounds register stream
      = .ok (Checksum.finish (Checksum.add register (data.drop position))) := by
  -- the rounds that are left are more than the bytes that are left
  induction rounds generalizing register stream position with
  | zero =>
    rw [List.drop_eq_nil_of_le (by omega)]
    rfl
  | succ rounds ih =>
    obtain ⟨next, hread, hnext⟩ := h.read hdisk chunk
    rw [checksumRounds, hread]
    cases hpiece : (data.drop position).take chunk with
    | nil =>
      rw [Bytes.drop_eq_nil_of_take hchunk hpiece]
      rfl
    | cons first more =>
      rw [hpiece] at hnext
      rw [Bytes.drop_eq_append hpiece, Checksum.add_append]
      show (if _ then _ else _) = _
      rw [hnext.atEnd]
      by_cases hend : data.length ≤ position + (first :: more).length
      · rw [if_pos (decide_eq_true hend), List.drop_eq_nil_of_le hend]
        rfl
      · rw [if_neg (by simpa using hend)]
        refine ih hnext _ ?_
        rw [List.length_cons]
        omega

/-- What is no file hands out the same at any size, and all of it at once. -/
theorem checksumRounds_of_not_file (hnode : disk.isFile node = false) {chunk : Nat}
    (hchunk : 0 < chunk) :
    checksumRounds disk chunk (disk.size node + 1) Checksum.start
        (.file (reading disk uri node 0))
      = (disk.readFirst node (max chunk (disk.size node))).map Checksum.ofBytes := by
  have hread : (Stream.file (reading disk uri node 0)).read disk chunk
      = Stream.replaced (.file (reading disk uri node 0)) .file
        ((disk.readFirst node chunk).map fun found =>
          (found, reading disk uri node (0 + found.length))) := by
    rw [Stream.read, FileStream.read_reading (Nat.ne_of_gt hchunk), Disk.readFirst]
  obtain ⟨count, rfl⟩ := Nat.exists_eq_succ_of_ne_zero (Nat.ne_of_gt hchunk)
  rw [checksumRounds, hread, Disk.readFirst, Disk.readFirst, Disk.readAt, Disk.readAt, Disk.size]
  rw [Disk.isFile] at hnode
  cases hcontent : disk.content? node with
  | none => rfl
  | some content =>
    rw [hcontent] at hnode
    cases content with
    | file data => cases hnode
    | directory entries parent => rfl
    | link target => rfl
    | device kind =>
      -- it has no size, so one piece of it is all
      have hend (register : UInt32) : (if (Stream.file (reading disk uri node
            (0 + (List.replicate (count + 1) (0 : UInt8)).length))).atEnd then
            Except.ok (Checksum.finish register) else
            checksumRounds disk (count + 1) 0 register (.file (reading disk uri node
              (0 + (List.replicate (count + 1) (0 : UInt8)).length))))
          = (.ok (Checksum.finish register) : Except Error UInt32) := by
        split <;> rfl
      cases kind with
      | null => rfl
      | full => exact hend _
      | zero => exact hend _

/-- The checksum of an open node. -/
theorem checksumRounds_start (disk : Disk) (uri : Uri) (node : NodeId) {chunk : Nat}
    (hchunk : 0 < chunk) :
    checksumRounds disk chunk (disk.size node + 1) Checksum.start
        (.file (reading disk uri node 0))
      = (disk.readFirst node (max chunk (disk.size node))).map Checksum.ofBytes := by
  by_cases hfile : disk.isFile node = true
  · obtain ⟨data, hnode⟩ := Disk.isFile_iff.1 hfile
    have hdelivers : (Stream.file (reading disk uri node 0)).Delivers (· = disk) data 0 := by
      rw [reading, Disk.size_of_file hnode]
      exact .file uri node .read none rfl (fun _ hsame => hsame ▸ hnode) (Nat.zero_le _)
    have hall : (data.drop 0).take (max chunk (disk.size node)) = data :=
      List.take_of_length_le (by rw [Disk.size_of_file hnode, List.length_drop]; omega)
    have hrounds : data.length < 0 + (disk.size node + 1) := by
      rw [Disk.size_of_file hnode]
      omega
    rw [checksumRounds_delivers hdelivers rfl hchunk _ _ hrounds, Disk.readFirst,
      Disk.readAt_of_file hnode, hall]
    rfl
  · rw [Bool.not_eq_true] at hfile
    exact checksumRounds_of_not_file hfile hchunk

variable {server : Server} {path : String}

/-- Opening a location whose stream is that over a file. -/
theorem openStream_of_file (hstream : server.streamFor uri true = .ok (.file { uri })) :
    server.openStream disk uri .read true
      = (disk.openToRead uri).map fun node => (.file (reading disk uri node 0), disk) := by
  rw [openStream, hstream, Outcome.ok_bind]
  show (({ uri } : FileStream).tryOpen disk).map _ = _
  rw [FileStream.tryOpen_read]
  cases disk.openToRead uri <;> rfl

/-- A file that no archive hides has its contents on the disk. -/
theorem contents_of_file (hresolve : server.resolve path = .ok uri)
    (hstream : server.streamFor uri true = .ok (.file { uri })) :
    server.contents disk path = disk.fileContents uri := by
  rw [contents, hresolve, Outcome.ok_bind, openStream_of_file hstream, Disk.fileContents]
  cases disk.openToRead uri with
  | error error => rfl
  | ok node =>
    show ((Stream.file (reading disk uri node 0)).read disk (disk.size node)).1 = _
    -- no read is made for no bytes
    by_cases hsize : disk.size node = 0
    · rw [hsize, Outcome.ok_bind, hsize, Disk.readFirst, Disk.readAt_of_empty hsize]
      rfl
    · rw [Stream.read, FileStream.read_reading hsize, Outcome.ok_bind, Disk.readFirst]
      cases disk.readAt node 0 (disk.size node) <;> rfl

/-- A file that no archive hides has its checksum from the disk. -/
theorem checksum_of_file (hbuffer : 0 < server.settings.checksumBufferSize.toNat)
    (hresolve : server.resolve path = .ok uri)
    (hstream : server.streamFor uri true = .ok (.file { uri })) :
    server.checksum disk path
      = disk.fileChecksum uri server.settings.checksumBufferSize.toNat := by
  rw [checksum, hresolve, Outcome.ok_bind, openStream_of_file hstream, Disk.fileChecksum]
  cases disk.openToRead uri with
  | error error => rfl
  | ok node => exact checksumRounds_start disk uri node hbuffer

end Server

end ArchiveVfs
