import ArchiveVfs.Proofs.Archive.Draining
import ArchiveVfs.Proofs.Archive.EntryReading
import ArchiveVfs.Proofs.Server.Copying
import ArchiveVfs.Proofs.Stream.Delivering

/-!
# Moving bytes from stream to stream

The rounds of a copy take what the source has left, in pieces, and append it to the target
(`Filled`). From a source that delivers its data this comes to the same as writing all of it at
once (`copyRounds_pours`), so a target that is a file ends with the data (`copyTo_delivers`). Of
an entry that may be damaged the rounds tell, if they succeed, that it was taken to its end
(`copyRounds_pulls`).
-/

namespace ArchiveVfs

/-! ## What is written -/

namespace Disk

variable {disk later : Disk} {node : NodeId} {offset : Nat} {first new : Bytes}

/-- What is no file takes all bytes at all places or none. -/
theorem writeAt_of_not_file (hfile : disk.isFile node = false) (hfirst : first ≠ [])
    (hnew : new ≠ []) (offset position : Nat) :
    disk.writeAt node offset new = disk.writeAt node position first := by
  rw [isFile] at hfile
  rw [writeAt, writeAt, if_neg (by simpa using hnew), if_neg (by simpa using hfirst)]
  cases hcontent : disk.content? node with
  | none => rfl
  | some content =>
    rw [hcontent] at hfile
    cases content with
    | file data => cases hfile
    | directory entries parent => rfl
    | link target => rfl
    | device kind => cases kind <;> rfl

end Disk

namespace FileStream

variable {disk : Disk} {target : Uri} {node : NodeId} {written new : Bytes}

/-- A stream that writes a file asks the disk to write at its position. -/
theorem write_eq (target : Uri) (node : NodeId) (position : Nat) (disk : Disk) (new : Bytes) :
    (writing target node position).write disk new
      = ((disk.writeAt node position new).mapError fun fault => .transfer (.system fault)).map
        fun later => (writing target node (position + new.length), later) := by
  have hsize : max position (position + new.length) = position + new.length :=
    Nat.max_eq_right (Nat.le_add_right position new.length)
  simp only [write, writing]
  cases hwrite : disk.writeAt node position new with
  | error fault => simp only [AccessMode.canWrite, reduceCtorEq, if_false, hwrite]; rfl
  | ok later => simp only [AccessMode.canWrite, reduceCtorEq, if_false, hwrite, hsize]; rfl

/-- What has been written to a file grows at its end. -/
theorem write_file (target : Uri) (hfile : disk.isFile node = true) :
    (writing target node written.length).write (disk.setBytes node written) new
      = .ok (writing target node (written ++ new).length,
        disk.setBytes node (written ++ new)) := by
  obtain ⟨data, hdata⟩ := Disk.isFile_iff.1 hfile
  have hwrite : (disk.setBytes node written).writeAt node written.length new
      = .ok (disk.setBytes node (written ++ new)) := by
    cases new with
    | nil =>
      rw [List.append_nil]
      rfl
    | cons first more =>
      have hover : written.overwrite written.length (first :: more)
          = written ++ (first :: more) := by simp [Bytes.overwrite]
      simp only [Disk.writeAt, Disk.setBytes_node hdata, hover, Disk.setBytes_setBytes]
      rfl
  rw [write_eq, hwrite, List.length_append]
  rfl

/-- A device that takes bytes stays as it is. -/
theorem write_device {next : FileStream} {later : Disk} (hfile : disk.isFile node = false)
    (hwrite : (writing target node written.length).write disk new = .ok (next, later)) :
    next = writing target node (written ++ new).length ∧ later = disk := by
  rw [write_eq] at hwrite
  obtain ⟨left, hleft, heq⟩ := Outcome.map_eq_ok.1 hwrite
  obtain ⟨rfl, rfl⟩ := Prod.mk.inj heq
  rw [List.length_append]
  exact ⟨rfl, Disk.writeAt_eq_ok hfile (Outcome.mapError_eq_ok.1 hleft)⟩

end FileStream

/-- Writes all of the data at once. -/
def Stream.pour (writer : Stream) (disk : Disk) (data : Bytes) : Except Error Unit × Disk :=
  if data = [] then (.ok (), disk)
  else
    match writer.write disk data with
    | .error error => (.error error, disk)
    | .ok (_, later) => (.ok (), later)

theorem Stream.pour_nil (writer : Stream) (disk : Disk) : writer.pour disk [] = (.ok (), disk) := by
  rw [pour, if_pos rfl]

/-- A file that is written from its start ends with the data. -/
theorem Stream.pour_file (target : Uri) {disk : Disk} {node : NodeId}
    (hfile : disk.isFile node = true) (written data : Bytes) :
    (Stream.file (.writing target node written.length)).pour (disk.setBytes node written) data
      = (.ok (), disk.setBytes node (written ++ data)) := by
  by_cases hdata : data = []
  · subst hdata
    rw [pour_nil, List.append_nil]
  · rw [pour, if_neg hdata, write, FileStream.write_file _ hfile]
    rfl

/-- A file that has just been emptied ends with the data. -/
theorem Stream.pour_emptied (target : Uri) {unlocked opened : Disk} {path : String} {node : NodeId}
    (hemptied : unlocked.Emptied path node opened) (hfile : opened.isFile node = true)
    (data : Bytes) :
    (Stream.file (.writing target node 0)).pour opened data
      = (.ok (), opened.setBytes node data) := by
  have hpour := pour_file target hfile [] data
  rwa [hemptied.setBytes_nil hfile] at hpour

/-- To memory one piece can be written where the other can. -/
theorem Stream.pour_memory (stream : MemoryStream) (disk : Disk) {first : Bytes}
    (hfirst : first ≠ [])
    (more : Bytes) :
    (Stream.memory stream).pour disk (first ++ more)
      = match (Stream.memory stream).write disk first with
        | .error error => (.error error, disk)
        | .ok (next, later) => next.pour later more := by
  have hboth : first ++ more ≠ [] := fun hnil => hfirst (List.append_eq_nil_iff.1 hnil).1
  rw [pour, if_neg hboth]
  by_cases hmore : more = []
  · subst hmore
    simp only [List.append_nil, pour_nil]
  · simp only [write, MemoryStream.write]
    by_cases hopen : stream.isOpen = true
    · by_cases hmode : stream.mode.canWrite = true
      · by_cases hmapped : stream.isMapped = true
        · simp [hopen, hmode, hmapped, Except.map]
        · simp [hopen, hmode, hmapped, Except.map, pour, hmore, write, MemoryStream.write]
      · simp [hopen, hmode, Except.map]
    · simp [hopen, Except.map]

/-- What a copy has written to a target that was opened with the stream `start`: memory and
devices leave the disk as it is, a file has the data. -/
inductive Filled (opened : Disk) : (start : Stream) → (data : Bytes) → Stream → Disk → Prop where
  | memory (first stream : MemoryStream) (data : Bytes) :
      Filled opened (.memory first) data (.memory stream) opened
  | device (target : Uri) {node : NodeId} (data : Bytes) (hfile : opened.isFile node = false) :
      Filled opened (.file (.writing target node 0)) data
        (.file (.writing target node data.length)) opened
  | file (target : Uri) {node : NodeId} (data : Bytes) (hfile : opened.isFile node = true) :
      Filled opened (.file (.writing target node 0)) data
        (.file (.writing target node data.length)) (opened.setBytes node data)

namespace Filled

variable {server : Server} {opened disk later : Disk} {start writer next : Stream}
  {data new : Bytes}

/-- Nothing has been written to what was just opened. -/
theorem ofOpen {target : Uri}
    (h : server.openStream disk target .write false = .ok (start, opened)) :
    Filled opened start [] start opened := by
  rcases Server.openStream_write_cases h with ⟨_, rfl, stream, rfl⟩ | ⟨_, node, rfl, hemptied⟩
  · exact .memory stream stream []
  · cases hfile : opened.isFile node with
    | true =>
      have hfilled : Filled opened (.file (.writing target node 0)) [] _ _ := .file target [] hfile
      rwa [hemptied.setBytes_nil hfile] at hfilled
    | false => exact .device target [] hfile

theorem write (h : Filled opened start data writer disk)
    (hwrite : writer.write disk new = .ok (next, later)) :
    Filled opened start (data ++ new) next later := by
  cases h with
  | memory first stream =>
    obtain ⟨moved, _, heq⟩ := Outcome.map_eq_ok.1 hwrite
    obtain ⟨rfl, rfl⟩ := Prod.mk.inj heq
    exact .memory first moved _
  | device target _ hfile =>
    obtain ⟨⟨moved, left⟩, hmoved, heq⟩ := Outcome.map_eq_ok.1 hwrite
    obtain ⟨rfl, rfl⟩ := Prod.mk.inj heq
    obtain ⟨rfl, rfl⟩ := FileStream.write_device hfile hmoved
    exact .device target _ hfile
  | file target _ hfile =>
    rw [Stream.write, FileStream.write_file _ hfile] at hwrite
    obtain ⟨rfl, rfl⟩ := Prod.mk.inj (Except.ok.inj hwrite)
    exact .file target _ hfile

/-- Writing pieces one after the other comes to the same as writing them as one. -/
theorem pour_append (h : Filled opened start data writer disk) {first : Bytes} (hfirst : first ≠ [])
    (more : Bytes) :
    writer.pour disk (first ++ more)
      = match writer.write disk first with
        | .error error => (.error error, disk)
        | .ok (next, later) => next.pour later more := by
  have hboth : first ++ more ≠ [] := fun hnil => hfirst (List.append_eq_nil_iff.1 hnil).1
  cases h with
  | memory _ stream => exact Stream.pour_memory stream _ hfirst more
  | @device target node _ hfile =>
    -- it takes every piece or none, wherever the piece is written
    have hall : opened.writeAt node data.length (first ++ more)
        = opened.writeAt node data.length first :=
      Disk.writeAt_of_not_file hfile hfirst hboth _ _
    simp only [Stream.pour, if_neg hboth, Stream.write, FileStream.write_eq, hall]
    cases hwrite : opened.writeAt node data.length first with
    | error fault => rfl
    | ok later =>
      obtain rfl := Disk.writeAt_eq_ok hfile hwrite
      by_cases hmore : more = []
      · subst hmore
        rfl
      · have hrest : later.writeAt node (data.length + first.length) more = .ok later := by
          rw [Disk.writeAt_of_not_file hfile hfirst hmore _ data.length, hwrite]
        simp only [Outcome.mapError_ok, Except.map, if_neg hmore, FileStream.write_eq, hrest]
  | @file target node _ hfile =>
    have hpiece : (Stream.file (.writing target node data.length)).write (opened.setBytes node data)
        first = .ok (.file (.writing target node (data ++ first).length),
          opened.setBytes node (data ++ first)) := by
      rw [Stream.write, FileStream.write_file _ hfile]
      rfl
    rw [Stream.pour_file target hfile, ← List.append_assoc, hpiece]
    exact (Stream.pour_file target hfile (data ++ first) more).symm

theorem pour (h : Filled opened start data writer disk)
    (hpour : writer.pour disk new = (.ok (), later)) :
    ∃ last, Filled opened start (data ++ new) last later := by
  rw [Stream.pour] at hpour
  by_cases hnew : new = []
  · rw [if_pos hnew] at hpour
    obtain rfl := congrArg Prod.snd hpour
    exact ⟨writer, by rwa [hnew, List.append_nil]⟩
  · rw [if_neg hnew] at hpour
    cases hwrite : writer.write disk new with
    | error error =>
      rw [hwrite] at hpour
      cases hpour
    | ok moved =>
      rw [hwrite] at hpour
      obtain rfl := congrArg Prod.snd hpour
      exact ⟨moved.1, h.write hwrite⟩

/-- A file has the data. -/
theorem disk_eq {target : Uri} {node : NodeId}
    (h : Filled opened (.file (.writing target node 0)) data writer disk)
    (hfile : opened.isFile node = true) : disk = opened.setBytes node data := by
  cases h with
  | device _ _ hdevice =>
    rw [hfile] at hdevice
    cases hdevice
  | file => rfl

/-- No other node has changed. -/
theorem others (h : Filled opened start data writer disk) {id : NodeId}
    (hother : ∀ target node, start = .file (.writing target node 0) → id ≠ node) :
    disk.content? id = opened.content? id := by
  cases h with
  | memory => rfl
  | device => rfl
  | file target => exact Disk.setBytes_other (hother _ _ rfl) data

end Filled

namespace Server

variable {source : Stream} {target : Uri} {node : NodeId} {opened disk base later : Disk}
  {written data : Bytes} {position chunk rounds : Nat}

/-- From a source that delivers its data, the rounds write all that is left, as if at once. -/
theorem copyRounds_pours {on : Disk → Prop} {start writer : Stream}
    (h : source.Delivers on data position) (hfilled : Filled opened start written writer disk)
    (hon : ∀ written last disk, Filled opened start written last disk → on disk)
    (hchunk : 0 < chunk) (hrounds : data.length < position + rounds) :
    copyRounds chunk rounds { source, target := writer, disk }
      = writer.pour disk (data.drop position) := by
  -- the rounds that are left are more than the bytes that are left
  induction rounds generalizing source position written writer disk with
  | zero =>
    rw [List.drop_eq_nil_of_le (by omega), Stream.pour_nil]
    rfl
  | succ rounds ih =>
    rw [copyRounds, h.atEnd]
    by_cases hend : data.length ≤ position
    · rw [List.drop_eq_nil_of_le hend, Stream.pour_nil]
      simp only [decide_eq_true hend, if_true]
    · obtain ⟨next, hread, hnext⟩ := h.read (hon _ _ _ hfilled) chunk
      simp only [decide_eq_false hend, hread]
      cases hpiece : (data.drop position).take chunk with
      | nil =>
        rw [Bytes.drop_eq_nil_of_take hchunk hpiece, Stream.pour_nil]
        rfl
      | cons first more =>
        rw [hpiece] at hnext
        rw [Bytes.drop_eq_append hpiece, hfilled.pour_append (List.cons_ne_nil first more)]
        cases hwrite : writer.write disk (first :: more) with
        | error error => simp only [hwrite, Bool.false_eq_true, if_false]
        | ok moved =>
          simp only [hwrite, Bool.false_eq_true, if_false]
          refine ih hnext (hfilled.write hwrite) ?_
          rw [List.length_cons]
          omega

/-- So does a copy whose target can be opened. -/
theorem copyTo_pours {server : Server} {on : Disk → Prop} {uri : Uri} {unlocked : Disk}
    {writer : Stream} (hbuffer : 0 < server.settings.copyBufferSize.toNat)
    (hunlock : unlockTarget disk target = .ok unlocked) (halike : Disk.Alike disk unlocked)
    (hsource : server.openStream disk uri .read true = .ok (source, disk))
    (hdelivers : source.Delivers on data 0)
    (htarget : server.openStream unlocked target .write false = .ok (writer, opened))
    (hon : ∀ written last disk, Filled opened writer written last disk → on disk) :
    server.copyTo disk uri target = writer.pour opened data := by
  have hreader : server.openStream unlocked uri .read true = .ok (source, unlocked) := by
    rw [openStream_alike halike, hsource]
    rfl
  rw [copyTo, hunlock]
  simp only [hreader, htarget]
  exact copyRounds_pours hdelivers (.ofOpen htarget) hon hbuffer (by rw [hdelivers.size]; omega)

/-- A copy from a source that delivers its data to a target that can be opened leaves the data
there. -/
theorem copyTo_delivers {server : Server} {on : Disk → Prop} {uri : Uri} {unlocked : Disk}
    (hbuffer : 0 < server.settings.copyBufferSize.toNat)
    (hunlock : unlockTarget disk target = .ok unlocked) (halike : Disk.Alike disk unlocked)
    (hsource : server.openStream disk uri .read true = .ok (source, disk))
    (hdelivers : source.Delivers on data 0)
    (hkind : server.schemes.kindOf target.scheme = .ok .file)
    (hopen : unlocked.openNode .write target.nativePath = .ok (node, opened))
    (hfile : opened.isFile node = true) (hon : ∀ written, on (opened.setBytes node written)) :
    server.copyTo disk uri target = (.ok (), opened.setBytes node data) := by
  rw [copyTo_pours hbuffer hunlock halike hsource hdelivers (openStream_write hkind hopen)]
  · exact Stream.pour_emptied target (Disk.openNode_write_cases hopen) hfile data
  · intro written last disk hfilled
    rw [hfilled.disk_eq hfile]
    exact hon written

/-! ## What stays while the target is filled -/

section Filling

variable {server : Server} {unlocked : Disk} {writer last : Stream}
  (halike : Disk.Alike disk unlocked)
  (htarget : server.openStream unlocked target .write false = .ok (writer, opened))
  (hfilled : Filled opened writer written last later)
include halike htarget hfilled

/-- A file that is not at the target keeps its bytes. -/
theorem others_of_filled (hdata : disk.content? node = some (.file data))
    (helsewhere : disk.locate target.nativePath ≠ .ok node) :
    later.content? node = some (.file data) := by
  have hthere : unlocked.content? node = some (.file data) := by rw [halike.content, hdata]
  rcases openStream_write_cases htarget with ⟨_, rfl, stream, rfl⟩ | ⟨_, place, rfl, hemptied⟩
  · rw [hfilled.others (fun _ _ h => nomatch h), hthere]
  · have hother : node ≠ place :=
      hemptied.ne_of_elsewhere hthere (by rw [halike.locate]; exact helsewhere)
    have hkept : later.content? node = opened.content? node := hfilled.others fun _ _ h => by
      cases h
      exact hother
    rw [hkept, hemptied.others hother hthere]

/-- Paths lead where they led. -/
theorem locate_of_filled {path : String} (hlocate : disk.locate path = .ok node) :
    later.locate path = .ok node := by
  rw [← halike.locate] at hlocate
  have hopened : opened.locate path = .ok node := by
    rcases openStream_write_cases htarget with ⟨_, rfl, _⟩ | ⟨_, _, _, hemptied⟩
    · exact hlocate
    · exact hemptied.locate hlocate
  cases hfilled with
  | memory => exact hopened
  | device => exact hopened
  | file _ _ hfile =>
    obtain ⟨data, hdata⟩ := Disk.isFile_iff.1 hfile
    rw [(Disk.sameTree_setBytes hdata written).locate, hopened]

end Filling

/-! ## Copies that come to their end -/

/-- However a copy goes, something has been written. -/
theorem copyRounds_fills {start writer : Stream} {outcome : Except Error Unit}
    (hfilled : Filled opened start written writer disk)
    (hcopy : copyRounds chunk rounds { source, target := writer, disk } = (outcome, later)) :
    ∃ data last, Filled opened start data last later := by
  induction rounds generalizing source writer disk written with
  | zero =>
    obtain ⟨_, rfl⟩ := Prod.mk.inj hcopy
    exact ⟨written, writer, hfilled⟩
  | succ rounds ih =>
    rw [copyRounds] at hcopy
    dsimp only at hcopy
    split at hcopy
    · obtain ⟨_, rfl⟩ := Prod.mk.inj hcopy
      exact ⟨written, writer, hfilled⟩
    · split at hcopy
      · obtain ⟨_, rfl⟩ := Prod.mk.inj hcopy
        exact ⟨written, writer, hfilled⟩
      · obtain ⟨_, rfl⟩ := Prod.mk.inj hcopy
        exact ⟨written, writer, hfilled⟩
      · split at hcopy
        · obtain ⟨_, rfl⟩ := Prod.mk.inj hcopy
          exact ⟨written, writer, hfilled⟩
        next hwrite => exact ih (hfilled.write hwrite) hcopy

/-- A copy of an entry that succeeds has taken the entry to its end. -/
theorem copyRounds_pulls {uri : Uri} {mode : AccessMode} {size : Nat} {reader : EntryReader}
    {start writer : Stream} (hsize : size = reader.size) (hhonest : reader.Honest)
    (hsame : ∀ data writer disk, Filled opened start data writer disk →
      reader.source.SameOn disk base)
    (hfilled : Filled opened start written writer disk) (hchunk : 0 < chunk)
    (hrounds : reader.size < reader.delivered + rounds)
    (hcopy : copyRounds chunk rounds
        { source := .entry { uri, mode, reader := some reader, size }, target := writer, disk }
      = (.ok (), later)) :
    ∃ data last, reader.Pulled base chunk data ∧
      Filled opened start (written ++ data) last later := by
  induction rounds generalizing reader writer disk written with
  | zero =>
    obtain ⟨_, rfl⟩ := Prod.mk.inj hcopy
    exact ⟨[], writer, .done (by omega), by rwa [List.append_nil]⟩
  | succ rounds ih =>
    have hend : (Stream.entry { uri, mode, reader := some reader, size }).atEnd
        = decide (reader.size ≤ reader.delivered) := by
      rw [hsize]
      rfl
    rw [copyRounds, hend] at hcopy
    by_cases hlast : reader.size ≤ reader.delivered
    · rw [if_pos (decide_eq_true hlast)] at hcopy
      obtain ⟨_, rfl⟩ := Prod.mk.inj hcopy
      exact ⟨[], writer, .done hlast, by rwa [List.append_nil]⟩
    · rw [if_neg (by simpa using hlast)] at hcopy
      rw [Stream.read_entry (hsame _ _ _ hfilled)] at hcopy
      rcases hpiece : reader.fill base chunk with ⟨fault | found, next⟩
      · rw [hpiece] at hcopy
        cases hcopy
      · rw [hpiece] at hcopy
        obtain ⟨hhands, hnone⟩ := hhonest.fill hpiece
        cases found with
        | nil =>
          rcases hnone rfl with hzero | hdone
          · omega
          · exact absurd hdone hlast
        | cons first more =>
          simp only [Outcome.mapError_ok] at hcopy
          cases hwrite : writer.write disk (first :: more) with
          | error error =>
            rw [hwrite] at hcopy
            cases hcopy
          | ok moved =>
            simp only [hwrite] at hcopy
            -- what the target has taken is not where the entry lies
            have hnext : ∀ data writer disk, Filled opened start data writer disk →
                next.source.SameOn disk base := by
              intro data writer disk hother
              have := (EntryReader.fill_congr (hsame _ _ _ hother) chunk).2
              rwa [hpiece] at this
            have hmoved := hhands.delivered
            rw [List.length_cons] at hmoved
            obtain ⟨data, last, hpulled, hlater⟩ := ih (hsize.trans hhands.size.symm)
              hhands.honest hnext (hfilled.write hwrite) (by rw [hhands.size]; omega) hcopy
            rw [List.append_assoc] at hlater
            exact ⟨_, last, .more hpiece hpulled, hlater⟩

end Server

end ArchiveVfs
