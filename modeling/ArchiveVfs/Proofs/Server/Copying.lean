import ArchiveVfs.Proofs.Disk.Creating
import ArchiveVfs.Proofs.Server.Probing

/-!
# The course of a copy

A copy clears the mark of its target, opens the source, opens the target and moves bytes;
it may fail on the way (`CopyCourse`). Clearing a mark changes nothing for those who read
(`openStream_alike`), and opening the source leaves the disk as it is.
-/

namespace ArchiveVfs

variable {disk other : Disk}

/-! ## Reading from disks that are alike -/

section Alike

variable (h : Disk.Alike disk other)
include h

theorem ArchiveData.bytes_alike (data : ArchiveData) : data.bytes other = data.bytes disk := by
  cases data with
  | mapped node size => rw [bytes, bytes, Disk.view, Disk.view, h.bytes]
  | loaded data => rfl

theorem Archive.load_alike (maps : Bool) (uri mountPoint : Uri) :
    Archive.load other maps uri mountPoint = Archive.load disk maps uri mountPoint := by
  have hdata : loadData other maps = loadData disk maps := by
    funext node
    rw [loadData, loadData, h.size, h.isFile, h.readAt]
  simp only [Archive.load, h.locate, hdata, ArchiveData.bytes_alike h]

theorem Mounts.findOrLoad_alike (mounts : Mounts) (uri : Uri) :
    mounts.findOrLoad other uri = mounts.findOrLoad disk uri := by
  rw [findOrLoad, findOrLoad, Archive.load_alike h]

theorem Archive.openEntry_alike (archive : Archive) (path : String) (password : Option String) :
    archive.openEntry other path password = archive.openEntry disk path password := by
  simp only [openEntry, ArchiveData.bytes_alike h]

theorem EntryStream.tryOpen_alike (stream : EntryStream) (mounts : Mounts) :
    stream.tryOpen mounts other = stream.tryOpen mounts disk := by
  simp only [tryOpen, Mounts.findOrLoad_alike h, Archive.openEntry_alike h]

/-- A new stream is opened to be read alike, and leaves the disk as it is. -/
theorem Stream.tryOpen_create_alike (kind : StreamKind) (uri : Uri) (mounts : Mounts) :
    ((kind.create uri).setMode .read).tryOpen mounts other
      = (((kind.create uri).setMode .read).tryOpen mounts disk).map fun opened =>
        (opened.1, other) := by
  cases kind with
  | memory => rfl
  | file =>
    show (({ uri } : FileStream).tryOpen other).map _
      = ((({ uri } : FileStream).tryOpen disk).map _).map _
    have hsize (node : NodeId) : FileStream.reading other uri node 0
        = FileStream.reading disk uri node 0 := by
      rw [FileStream.reading, FileStream.reading, h.size]
    rw [FileStream.tryOpen_read, FileStream.tryOpen_read, Disk.openToRead, Disk.openToRead,
      h.locate]
    cases disk.locate uri.nativePath with
    | error fault => rfl
    | ok node =>
      show Except.ok (Stream.file (FileStream.reading other uri node 0), other) = _
      rw [hsize]
      rfl
  | entry =>
    show (({ uri } : EntryStream).tryOpen mounts other).map _
      = ((({ uri } : EntryStream).tryOpen mounts disk).map _).map _
    rw [EntryStream.tryOpen_alike h]
    cases ({ uri } : EntryStream).tryOpen mounts disk <;> rfl

end Alike

/-- A stream that writes a file from its start, and has written some bytes. -/
def FileStream.writing (uri : Uri) (node : NodeId) (written : Nat) : FileStream where
  uri
  mode := .write
  node := some node
  size := written
  position := written

namespace Server

variable {server : Server} {uri : Uri}

/-- Opening to read leaves the disk as it is, and goes alike on disks that are alike. -/
theorem openStream_alike (h : Disk.Alike disk other) (uri : Uri) (throughArchives : Bool) :
    server.openStream other uri .read throughArchives
      = (server.openStream disk uri .read throughArchives).map fun opened => (opened.1, other) := by
  rw [openStream, openStream, streamFor]
  generalize server.target uri throughArchives = target
  cases server.schemes.kindOf target.scheme with
  | error error => rfl
  | ok kind => exact Stream.tryOpen_create_alike h kind target server.mounts

theorem openStream_read {stream : Stream} {later : Disk} {throughArchives : Bool}
    (h : server.openStream disk uri .read throughArchives = .ok (stream, later)) :
    later = disk := by
  have hsame : server.openStream disk uri .read throughArchives = _ :=
    openStream_alike (.refl disk) uri throughArchives
  rw [h] at hsame
  exact congrArg Prod.snd (Except.ok.inj hsame)

theorem fileAt_alike (h : Disk.Alike disk other) (uri : Uri) :
    server.fileAt other uri = server.fileAt disk uri := by
  simp only [fileAt, entryExists, h.fileExists, Mounts.findOrLoad_alike h]

/-- All that opening a stream to write can do, apart from other schemes: over memory nothing
happens to the disk. -/
theorem openStream_write_cases {target : Uri} {writer : Stream} {opened : Disk}
    (h : server.openStream disk target .write false = .ok (writer, opened)) :
    (server.schemes.kindOf target.scheme = .ok .memory ∧ opened = disk ∧
      ∃ stream, writer = .memory stream) ∨
    (server.schemes.kindOf target.scheme = .ok .file ∧
      ∃ node, writer = .file (.writing target node 0) ∧
        disk.Emptied target.nativePath node opened) := by
  have hsame : server.target target false = target := rfl
  rw [openStream, streamFor, hsame] at h
  cases hkind : server.schemes.kindOf target.scheme with
  | error error =>
    rw [hkind] at h
    cases h
  | ok kind =>
    rw [hkind] at h
    cases kind with
    | memory =>
      obtain ⟨rfl, rfl⟩ := Prod.mk.inj (Except.ok.inj h)
      exact .inl ⟨rfl, rfl, _, rfl⟩
    | file =>
      have hopen : (({ uri := target, mode := .write } : FileStream).tryOpen disk).map
          (fun opened => (Stream.file opened.1, opened.2)) = .ok (writer, opened) := h
      cases hnode : disk.openNode .write target.nativePath with
      | error fault =>
        simp only [FileStream.tryOpen, hnode] at hopen
        cases hopen
      | ok found =>
        simp only [FileStream.tryOpen, hnode] at hopen
        obtain ⟨rfl, rfl⟩ := Prod.mk.inj (Except.ok.inj hopen)
        have hemptied := Disk.openNode_write_cases hnode
        refine .inr ⟨rfl, found.1, ?_, hemptied⟩
        rw [FileStream.writing, hemptied.size]
        rfl
    | entry => cases h

/-- A path that can be opened to write gives a stream at its start. -/
theorem openStream_write {target : Uri} {node : NodeId} {opened : Disk}
    (hkind : server.schemes.kindOf target.scheme = .ok .file)
    (hopen : disk.openNode .write target.nativePath = .ok (node, opened)) :
    server.openStream disk target .write false
      = .ok (.file (.writing target node 0), opened) := by
  have hsame : server.target target false = target := rfl
  rw [openStream, streamFor, hsame, hkind]
  show (({ uri := target, mode := .write } : FileStream).tryOpen disk).map _ = _
  simp only [FileStream.tryOpen, hopen, (Disk.openNode_write_cases hopen).size]
  rfl

/-! ## The steps of a copy -/

/-- Whether the target is a file that is marked read-only. -/
def isLocked (disk : Disk) (target : Uri) : Bool :=
  target.isFile && disk.fileExists target.nativePath && disk.isReadOnly target.nativePath

/-- What making the target writable leaves. -/
inductive Unlocks (disk : Disk) (target : Uri) : Disk → Prop where
  | free (hfree : isLocked disk target = false) : Unlocks disk target disk
  | locked {node : NodeId} (hlocked : isLocked disk target = true)
      (hlocate : disk.locate target.nativePath = .ok node) :
      Unlocks disk target (disk.unmark node)

theorem Unlocks.alike {target : Uri} (h : Unlocks disk target other) : Disk.Alike disk other := by
  cases h with
  | free => exact .refl disk
  | locked => exact Disk.alike_unmark disk _

/-- A target that is a file can be written when it has been unlocked. -/
theorem Unlocks.hasFile {target : Uri} {node : NodeId} {data : Bytes}
    (h : Unlocks disk target other) (hfile : target.isFile = true)
    (hlocate : disk.locate target.nativePath = .ok node)
    (hcontent : disk.content? node = some (.file data)) :
    other.HasFile target.nativePath node data := by
  refine ⟨by rw [h.alike.locate, hlocate], by rw [h.alike.content, hcontent], ?_⟩
  cases h with
  | free hfree =>
    have hthere : disk.isFile node = true := Disk.isFile_iff.2 ⟨data, hcontent⟩
    simpa [isLocked, hfile, Disk.fileExists, Disk.isReadOnly, hlocate, hthere] using hfree
  | locked _ hsame =>
    rw [hlocate] at hsame
    obtain rfl := Except.ok.inj hsame
    exact Disk.isMarked_unmark disk node

/-- Where a file can be left, one that is empty can be opened. -/
theorem Unlocks.openNode {target : Uri} (h : Unlocks disk target other)
    (hfile : target.isFile = true) (hhold : disk.CanHold target.nativePath) :
    ∃ node opened, other.openNode .write target.nativePath = .ok (node, opened) ∧
      opened.HasFile target.nativePath node [] := by
  cases hhold with
  | file hlocate hcontent =>
    obtain ⟨opened, hopen, hempty⟩ := (h.hasFile hfile hlocate hcontent).openNode .write
    exact ⟨_, opened, hopen, hempty⟩
  | vacant hvacant hfree =>
    cases h with
    | free =>
      obtain ⟨opened, hopen, hempty⟩ := Disk.openNode_write_of_vacancy hvacant hfree
      exact ⟨_, opened, hopen, hempty⟩
    | @locked node hlocked hlocate =>
      -- what is locked is a file, so the place is not vacant
      simp only [isLocked, Bool.and_eq_true, Disk.fileExists, hlocate] at hlocked
      obtain ⟨data, hdata⟩ := Disk.isFile_iff.1 hlocked.1.2
      rw [Disk.findToCreate_of_locate hlocate (Disk.isDirectory_of_file hdata)] at hvacant
      cases hvacant

theorem unlockTarget_eq (disk : Disk) (target : Uri) :
    ∃ unlocked, unlockTarget disk target = .ok unlocked ∧ Unlocks disk target unlocked := by
  have hcases : unlockTarget disk target = if isLocked disk target then
      disk.setReadOnly target.nativePath false else .ok disk := rfl
  rw [hcases]
  by_cases hlocked : isLocked disk target = true
  · have hmarked : disk.isReadOnly target.nativePath = true := (Bool.and_eq_true_iff.1 hlocked).2
    rw [if_pos hlocked]
    cases hlocate : disk.locate target.nativePath with
    | error fault =>
      rw [Disk.isReadOnly, hlocate] at hmarked
      cases hmarked
    | ok node =>
      rw [Disk.setReadOnly_of_locate hlocate]
      exact ⟨_, rfl, .locked hlocked hlocate⟩
  · rw [if_neg hlocked]
    exact ⟨disk, rfl, .free (Bool.not_eq_true _ ▸ hlocked)⟩

/-- How a copy goes: where it fails, or that it comes to moving bytes. -/
inductive CopyCourse (server : Server) (disk : Disk) (source target : Uri) :
    Except Error Unit × Disk → Prop where
  | noSource {unlocked : Disk} {error : Error} (hunlocked : Unlocks disk target unlocked)
      (hsource : server.openStream unlocked source .read true = .error error) :
      CopyCourse server disk source target (.error error, unlocked)
  | noTarget {unlocked : Disk} {reader : Stream} {error : Error}
      (hunlocked : Unlocks disk target unlocked)
      (hsource : server.openStream unlocked source .read true = .ok (reader, unlocked))
      (htarget : server.openStream unlocked target .write false = .error error) :
      CopyCourse server disk source target (.error error, unlocked)
  | moves {unlocked opened : Disk} {reader writer : Stream}
      (hunlocked : Unlocks disk target unlocked)
      (hsource : server.openStream unlocked source .read true = .ok (reader, unlocked))
      (htarget : server.openStream unlocked target .write false = .ok (writer, opened)) :
      CopyCourse server disk source target
        (copyRounds server.settings.copyBufferSize.toNat (reader.size + 1)
          { source := reader, target := writer, disk := opened })

theorem copyTo_course (server : Server) (disk : Disk) (source target : Uri) :
    server.CopyCourse disk source target (server.copyTo disk source target) := by
  obtain ⟨unlocked, hunlock, hunlocked⟩ := unlockTarget_eq disk target
  rw [copyTo, hunlock]
  dsimp only
  cases hsource : server.openStream unlocked source .read true with
  | error error => exact .noSource hunlocked hsource
  | ok opened =>
    obtain ⟨reader, later⟩ := opened
    obtain rfl := openStream_read hsource
    dsimp only
    cases htarget : server.openStream later target .write false with
    | error error => exact .noTarget hunlocked hsource htarget
    | ok opened => exact .moves hunlocked hsource htarget

/-! ## Sources with nothing to move -/

section Nothing

open FileStream (reading)

variable {opened : Disk} {source : Uri} {node : NodeId} {writer : Stream} {chunk : Nat}

theorem copyRounds_atEnd {copying : Copying} (chunk rounds : Nat)
    (hend : copying.source.atEnd = true) :
    copyRounds chunk (rounds + 1) copying = (.ok (), copying.disk) := by
  rw [copyRounds, if_pos hend]

/-- Moving from a directory fails at the first read. -/
theorem copyRounds_directory (hchunk : chunk ≠ 0) (hdir : disk.isDirectory node = true)
    (hstill : opened.isDirectory node = true) :
    copyRounds chunk (disk.size node + 1)
        { source := .file (reading disk source node 0), target := writer, disk := opened }
      = (.error (.transfer (.system .isDirectory)), opened) := by
  obtain ⟨_, _, hcontent⟩ := Disk.isDirectory_iff.1 hdir
  obtain ⟨_, _, hlater⟩ := Disk.isDirectory_iff.1 hstill
  have hsize : disk.size node = Disk.directorySize := by rw [Disk.size, hcontent]
  have hread : (Stream.file (reading disk source node 0)).read opened chunk
      = (.error (.transfer (.system .isDirectory)), .file (reading disk source node 0)) := by
    simp only [Stream.read, FileStream.read, reading, if_neg hchunk, Disk.readAt, hlater]
    rfl
  have hend : (Stream.file (reading disk source node 0)).atEnd = false := by
    rw [reading, hsize]
    rfl
  rw [copyRounds, if_neg (by simp [hend])]
  simp only [hread]

end Nothing

/-- A copy of paths that resolve is a copy of what they stand for. -/
theorem copyFile_eq {sourcePath targetPath : String} {source target : Uri}
    (hsource : server.resolve sourcePath = .ok source)
    (htarget : server.resolve targetPath = .ok target) :
    server.copyFile disk sourcePath targetPath = server.copyTo disk source target := by
  rw [copyFile, hsource, htarget]

end Server

end ArchiveVfs
