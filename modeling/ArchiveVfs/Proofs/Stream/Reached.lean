import ArchiveVfs.Proofs.Disk.Contents
import ArchiveVfs.Proofs.Outcome
import ArchiveVfs.Stream.Basic

/-!
# Streams that can be reached

A stream over memory or over a file begins closed and is then called in any order,
with calls that fail among them; its mode is set only while it is closed (`Call.Permitted`).
`Reached` collects what can come of that while nobody else changes the file that the stream
holds open. `Reached.settled` says what holds of all such streams: a closed one stands at its
start without a view, and one that is open stands within its bytes, all of which its view shows.
-/

namespace ArchiveVfs

namespace Stream

/-- A call on a stream. -/
inductive Call where
  | setMode (mode : AccessMode)
  | tryOpen
  | close
  | read (count : Nat)
  | write (new : Bytes)
  | seek (offset : Int) (origin : Origin)
  | map
  | unmap

/-- What the callers of a stream keep to: they set its mode only while it is closed. -/
def Call.Permitted (stream : Stream) : Call → Prop
  | .setMode _ => stream.isOpen = false
  | _ => True

/-- What a call that may fail leaves. -/
def changed (stream : Stream) (disk : Disk) : Except Error (Stream × Disk) → Stream × Disk
  | .ok after => after
  | .error _ => (stream, disk)

/-- The stream and the disk after a call. -/
def perform (mounts : Mounts) (disk : Disk) (stream : Stream) : Call → Stream × Disk
  | .setMode mode => (stream.setMode mode, disk)
  | .tryOpen => stream.changed disk (stream.tryOpen mounts disk)
  | .close => (stream.close, disk)
  | .read count => ((stream.read disk count).2, disk)
  | .write new => stream.changed disk (stream.write disk new)
  | .seek offset origin => ((stream.seek disk offset origin).2, disk)
  | .map => stream.changed disk ((stream.map disk).map fun stream => (stream, disk))
  | .unmap => (stream.unmap, disk)

/-- The node of the file that the stream holds open. -/
def node? : Stream → Option NodeId
  | file stream => stream.node
  | memory _ | entry _ => none

/-- The streams over memory and over files that permitted calls lead to. Between the calls the
disk may change, but not the file that the stream holds open. -/
inductive Reached : Disk → Stream → Prop where
  | memory (disk : Disk) (uri : Uri) (data : Bytes) : Reached disk (.memory { uri, data })
  | file (disk : Disk) (uri : Uri) : Reached disk (.file { uri })
  | perform {disk : Disk} {stream : Stream} (h : Reached disk stream) (mounts : Mounts)
      (call : Call) (hpermitted : call.Permitted stream) :
      Reached (stream.perform mounts disk call).2 (stream.perform mounts disk call).1
  | others {disk : Disk} {stream : Stream} (h : Reached disk stream) (later : Disk)
      (hkept : ∀ node, stream.node? = some node → later.content? node = disk.content? node) :
      Reached later stream

end Stream

namespace MemoryStream

variable {stream next : MemoryStream} {P : MemoryStream → Prop}

/-- What a property has to survive to hold after every permitted call: each operation that
succeeds. -/
structure Keeps (P : MemoryStream → Prop) (stream : MemoryStream) : Prop where
  setMode : stream.isOpen = false → ∀ mode, P (stream.setMode mode)
  tryOpen : ∀ next, stream.tryOpen = .ok next → P next
  close : P stream.close
  read : ∀ count found next, stream.read count = .ok (found, next) → P next
  write : ∀ new next, stream.write new = .ok next → P next
  seek : ∀ offset origin next, stream.seek offset origin = .ok next → P next
  map : ∀ next, stream.map = .ok next → P next
  unmap : P stream.unmap

/-- A call leaves a stream over memory with the property, and the disk as it is. -/
theorem Keeps.perform (hkeeps : stream.Keeps P) (h : P stream) (mounts : Mounts) (disk : Disk)
    {call : Stream.Call} (hpermitted : call.Permitted (.memory stream)) :
    ∃ next, (Stream.memory stream).perform mounts disk call = (.memory next, disk) ∧ P next := by
  cases call with
  | setMode mode => exact ⟨_, rfl, hkeeps.setMode hpermitted mode⟩
  | tryOpen =>
    rw [Stream.perform, Stream.tryOpen]
    cases hopen : stream.tryOpen with
    | error error => exact ⟨stream, rfl, h⟩
    | ok next => exact ⟨next, rfl, hkeeps.tryOpen next hopen⟩
  | close => exact ⟨_, rfl, hkeeps.close⟩
  | read count =>
    rw [Stream.perform, Stream.read]
    cases hread : stream.read count with
    | error error => exact ⟨stream, rfl, h⟩
    | ok given => exact ⟨given.2, rfl, hkeeps.read count given.1 given.2 hread⟩
  | write new =>
    rw [Stream.perform, Stream.write]
    cases hwrite : stream.write new with
    | error error => exact ⟨stream, rfl, h⟩
    | ok next => exact ⟨next, rfl, hkeeps.write new next hwrite⟩
  | seek offset origin =>
    rw [Stream.perform, Stream.seek]
    cases hseek : stream.seek offset origin with
    | error error => exact ⟨stream, rfl, h⟩
    | ok next => exact ⟨next, rfl, hkeeps.seek offset origin next hseek⟩
  | map =>
    rw [Stream.perform, Stream.map]
    cases hmap : stream.map with
    | error error => exact ⟨stream, rfl, h⟩
    | ok next => exact ⟨next, rfl, hkeeps.map next hmap⟩
  | unmap => exact ⟨_, rfl, hkeeps.unmap⟩

/-- What holds of every memory stream between two calls. -/
structure Settled (stream : MemoryStream) : Prop where
  within : stream.position ≤ stream.data.length
  closed : stream.isOpen = false → stream.position = 0 ∧ stream.isMapped = false

theorem Settled.ofOpen (hwithin : stream.position ≤ stream.data.length)
    (hopen : stream.isOpen = true) : stream.Settled :=
  ⟨hwithin, fun hclosed => by simp [hopen] at hclosed⟩

theorem Settled.setMode (h : stream.Settled) (mode : AccessMode) :
    (stream.setMode mode).Settled :=
  ⟨h.within, h.closed⟩

theorem Settled.tryOpen (hopen : stream.tryOpen = .ok next) : next.Settled := by
  rw [MemoryStream.tryOpen] at hopen
  split at hopen
  · cases hopen
  · obtain rfl := Except.ok.inj hopen
    rw [opened]
    split
    · exact .ofOpen (Nat.le_refl _) rfl
    · exact .ofOpen (Nat.le_refl _) rfl
    · exact .ofOpen (Nat.zero_le _) rfl
    · exact .ofOpen (Nat.zero_le _) rfl

theorem Settled.close : stream.close.Settled :=
  ⟨Nat.zero_le _, fun _ => ⟨rfl, rfl⟩⟩

theorem Settled.read {count : Nat} {found : Bytes} (h : stream.Settled)
    (hread : stream.read count = .ok (found, next)) : next.Settled := by
  rw [MemoryStream.read] at hread
  split at hread
  · cases hread
  · rename_i hopen
    split at hread
    · cases hread
    · obtain ⟨rfl, rfl⟩ := Prod.mk.inj (Except.ok.inj hread)
      refine .ofOpen ?_ (by simpa using hopen)
      have := h.within
      simp only [List.length_take, List.length_drop]
      omega

theorem Settled.write {new : Bytes} (h : stream.Settled)
    (hwrite : stream.write new = .ok next) : next.Settled := by
  rw [MemoryStream.write] at hwrite
  split at hwrite
  · cases hwrite
  · rename_i hopen
    split at hwrite
    · cases hwrite
    · split at hwrite
      · cases hwrite
      · obtain rfl := Except.ok.inj hwrite
        refine .ofOpen ?_ (by simpa using hopen)
        have hplace : stream.writePosition ≤ stream.data.length := by
          rw [writePosition]
          split
          · exact Nat.le_refl _
          · exact h.within
        show stream.writePosition + new.length ≤ _
        rw [Bytes.length_overwrite hplace]
        exact Nat.le_max_right _ _

theorem Settled.seek {offset : Int} {origin : Origin}
    (hseek : stream.seek offset origin = .ok next) : next.Settled := by
  rw [MemoryStream.seek] at hseek
  split at hseek
  · cases hseek
  · rename_i hopen
    cases htarget : seekTarget stream.position stream.size offset origin with
    | error error =>
      rw [htarget] at hseek
      cases hseek
    | ok target =>
      rw [htarget] at hseek
      obtain rfl := Except.ok.inj hseek
      exact .ofOpen (seekTarget_le htarget) (by simpa using hopen)

theorem Settled.map (h : stream.Settled) (hmap : stream.map = .ok next) : next.Settled := by
  rw [MemoryStream.map] at hmap
  split at hmap
  · rename_i hopen
    obtain rfl := Except.ok.inj hmap
    exact .ofOpen h.within hopen
  · cases hmap

theorem Settled.unmap (h : stream.Settled) : stream.unmap.Settled :=
  ⟨h.within, fun hclosed => ⟨(h.closed hclosed).1, rfl⟩⟩

theorem Settled.keeps (h : stream.Settled) : stream.Keeps Settled where
  setMode _ := h.setMode
  tryOpen _ := .tryOpen
  close := .close
  read _ _ _ := h.read
  write _ _ := h.write
  seek _ _ _ := .seek
  map _ := h.map
  unmap := h.unmap

end MemoryStream

namespace FileStream

variable {disk later : Disk} {stream next : FileStream} {P : Disk → FileStream → Prop}

/-- What a property has to survive to hold after every permitted call: each operation that
succeeds. -/
structure Keeps (P : Disk → FileStream → Prop) (disk : Disk) (stream : FileStream) : Prop where
  setMode : stream.isOpen = false → ∀ mode, P disk (stream.setMode mode)
  tryOpen : ∀ next later, stream.tryOpen disk = .ok (next, later) → P later next
  close : P disk stream.close
  read : ∀ count found next, stream.read disk count = .ok (found, next) → P disk next
  write : ∀ new next later, stream.write disk new = .ok (next, later) → P later next
  seek : ∀ offset origin next, stream.seek offset origin = .ok next → P disk next
  map : ∀ next, stream.map disk = .ok next → P disk next
  unmap : P disk stream.unmap

/-- A call leaves a stream over a file with the property. -/
theorem Keeps.perform (hkeeps : stream.Keeps P disk) (h : P disk stream) (mounts : Mounts)
    {call : Stream.Call} (hpermitted : call.Permitted (.file stream)) :
    ∃ next later, (Stream.file stream).perform mounts disk call = (.file next, later) ∧
      P later next := by
  cases call with
  | setMode mode => exact ⟨_, disk, rfl, hkeeps.setMode hpermitted mode⟩
  | tryOpen =>
    rw [Stream.perform, Stream.tryOpen]
    cases hopen : stream.tryOpen disk with
    | error error => exact ⟨stream, disk, rfl, h⟩
    | ok opened => exact ⟨opened.1, opened.2, rfl, hkeeps.tryOpen opened.1 opened.2 hopen⟩
  | close => exact ⟨_, disk, rfl, hkeeps.close⟩
  | read count =>
    rw [Stream.perform, Stream.read]
    cases hread : stream.read disk count with
    | error error => exact ⟨stream, disk, rfl, h⟩
    | ok given => exact ⟨given.2, disk, rfl, hkeeps.read count given.1 given.2 hread⟩
  | write new =>
    rw [Stream.perform, Stream.write]
    cases hwrite : stream.write disk new with
    | error error => exact ⟨stream, disk, rfl, h⟩
    | ok written => exact ⟨written.1, written.2, rfl, hkeeps.write new written.1 written.2 hwrite⟩
  | seek offset origin =>
    rw [Stream.perform, Stream.seek]
    cases hseek : stream.seek offset origin with
    | error error => exact ⟨stream, disk, rfl, h⟩
    | ok next => exact ⟨next, disk, rfl, hkeeps.seek offset origin next hseek⟩
  | map =>
    rw [Stream.perform, Stream.map]
    cases hmap : stream.map disk with
    | error error => exact ⟨stream, disk, rfl, h⟩
    | ok next => exact ⟨next, disk, rfl, hkeeps.map next hmap⟩
  | unmap => exact ⟨_, disk, rfl, hkeeps.unmap⟩

/-- A file is mapped in mode read only. -/
theorem mode_of_map (h : stream.map disk = .ok next) : stream.mode = .read := by
  rw [FileStream.map] at h
  cases hnode : stream.node with
  | none =>
    rw [hnode] at h
    cases h
  | some node =>
    simp only [hnode] at h
    by_cases hmode : stream.mode = .read
    · exact hmode
    · rw [if_pos hmode] at h
      cases h

/-- A view is all that mapping adds. -/
theorem map_eq_ok (hmap : stream.map disk = .ok next) :
    stream.node ≠ none ∧ ∃ size, next = { stream with viewSize := some size } := by
  rw [FileStream.map] at hmap
  cases hnode : stream.node with
  | none =>
    rw [hnode] at hmap
    cases hmap
  | some node =>
    refine ⟨by simp, ?_⟩
    simp only [hnode] at hmap
    split at hmap
    · cases hmap
    · split at hmap
      · rename_i hmapped
        obtain rfl := Except.ok.inj hmap
        obtain ⟨size, hsize⟩ := Option.isSome_iff_exists.1 hmapped
        exact ⟨size, by rw [← hsize, ← hnode]⟩
      · split at hmap
        · exact ⟨0, (Except.ok.inj hmap).symm⟩
        · split at hmap
          · exact ⟨disk.size node, (Except.ok.inj hmap).symm⟩
          · cases hmap

/-- A stream over a regular file that is open in mode read can be mapped. -/
theorem map_of_regular {node : NodeId} (hnode : stream.node = some node)
    (hmode : stream.mode = .read) (hfile : disk.isFile node = true) :
    ∃ next, stream.map disk = .ok next := by
  simp only [FileStream.map, hnode, hmode, hfile]
  split <;> rename_i hother
  · exact absurd rfl hother
  · split
    · exact ⟨_, rfl⟩
    · split <;> exact ⟨_, rfl⟩

/-- What holds of every file stream between two calls. -/
structure Settled (disk : Disk) (stream : FileStream) : Prop where
  closed : stream.node = none → stream.position = 0 ∧ stream.viewSize = none
  held : ∀ node data, stream.node = some node → disk.content? node = some (.file data) →
    stream.size = data.length ∧ stream.position ≤ data.length
  viewed : ∀ size, stream.viewSize = some size → stream.mode = .read ∧
    ∀ node data, stream.node = some node → disk.content? node = some (.file data) →
      size = data.length

namespace Settled

theorem view_of_closed (h : stream.Settled disk) (hclosed : stream.isOpen = false) :
    stream.viewSize = none := by
  refine (h.closed ?_).2
  simpa [isOpen] using hclosed

theorem others (h : stream.Settled disk)
    (hkept : ∀ node, stream.node = some node → later.content? node = disk.content? node) :
    stream.Settled later where
  closed := h.closed
  held node data hnode hdata := h.held node data hnode (hkept node hnode ▸ hdata)
  viewed size hsize := ⟨(h.viewed size hsize).1, fun node data hnode hdata =>
    (h.viewed size hsize).2 node data hnode (hkept node hnode ▸ hdata)⟩

theorem setMode (h : stream.Settled disk) (hclosed : stream.isOpen = false) (mode : AccessMode) :
    (stream.setMode mode).Settled disk := by
  have hview : stream.viewSize = none := h.view_of_closed hclosed
  exact ⟨h.closed, h.held, fun size hsize => by cases hview.symm.trans hsize⟩

theorem tryOpen (h : stream.Settled disk) (hopen : stream.tryOpen disk = .ok (next, later)) :
    next.Settled later := by
  rw [FileStream.tryOpen] at hopen
  split at hopen
  · cases hopen
  next hclosed =>
    have hview : stream.viewSize = none := h.view_of_closed (by simpa using hclosed)
    cases hnode : disk.openNode stream.mode stream.uri.nativePath with
    | error fault =>
      rw [hnode] at hopen
      cases hopen
    | ok found =>
      rw [hnode] at hopen
      obtain ⟨rfl, rfl⟩ := Prod.mk.inj (Except.ok.inj hopen)
      refine ⟨by simp, ?_, fun size hsize => by cases hview.symm.trans hsize⟩
      intro node data hsame hdata
      obtain rfl : found.1 = node := Option.some.inj hsame
      refine ⟨Disk.size_of_file hdata, ?_⟩
      dsimp only
      rw [Disk.size_of_file hdata]
      split
      · exact Nat.le_refl _
      · exact Nat.zero_le _

theorem close : stream.close.Settled disk :=
  ⟨fun _ => ⟨rfl, rfl⟩, by simp [FileStream.close], by simp [FileStream.close]⟩

theorem read {count : Nat} {found : Bytes} (h : stream.Settled disk)
    (hread : stream.read disk count = .ok (found, next)) : next.Settled disk := by
  rw [FileStream.read] at hread
  cases hnode : stream.node with
  | none =>
    rw [hnode] at hread
    cases hread
  | some node =>
    simp only [hnode] at hread
    split at hread
    · cases hread
    · split at hread
      · obtain ⟨rfl, rfl⟩ := Prod.mk.inj (Except.ok.inj hread)
        exact h
      · cases hbytes : disk.readAt node stream.position count with
        | error fault =>
          rw [hbytes] at hread
          cases hread
        | ok bytes =>
          rw [hbytes] at hread
          obtain ⟨rfl, rfl⟩ := Prod.mk.inj (Except.ok.inj hread)
          refine ⟨by simp, ?_, fun size hsize => hnode ▸ h.viewed size hsize⟩
          intro other data hsame hdata
          obtain rfl : node = other := Option.some.inj hsame
          obtain ⟨hsize, hwithin⟩ := h.held node data hnode hdata
          rw [Disk.readAt, hdata] at hbytes
          obtain rfl := Except.ok.inj hbytes
          refine ⟨hsize, ?_⟩
          simp only [List.length_take, List.length_drop]
          omega

/-- The stream and the disk agree on where bytes go that are written, in mode append too. -/
theorem write {new : Bytes} (h : stream.Settled disk)
    (hwrite : stream.write disk new = .ok (next, later)) : next.Settled later := by
  rw [FileStream.write] at hwrite
  cases hnode : stream.node with
  | none =>
    rw [hnode] at hwrite
    cases hwrite
  | some node =>
    simp only [hnode] at hwrite
    split at hwrite
    · cases hwrite
    next hmode =>
      -- a stream that can write is in no mode that has a view
      have hview : stream.viewSize = none := by
        cases hview : stream.viewSize with
        | none => rfl
        | some size =>
          rw [(h.viewed size hview).1] at hmode
          exact absurd rfl hmode
      split at hwrite
      · cases hwrite
      next written hwritten =>
        obtain ⟨rfl, rfl⟩ := Prod.mk.inj (Except.ok.inj hwrite)
        refine ⟨by simp, ?_, fun size hsize => by cases hview.symm.trans hsize⟩
        intro other found hsame hfound
        obtain rfl : node = other := Option.some.inj hsame
        cases hfile : disk.isFile node with
        | false =>
          obtain rfl := Disk.writeAt_eq_ok hfile hwritten
          rw [Disk.isFile, hfound] at hfile
          cases hfile
        | true =>
          obtain ⟨data, hdata⟩ := Disk.isFile_iff.1 hfile
          obtain ⟨hsize, hwithin⟩ := h.held node data hnode hdata
          rw [Disk.size_of_file hdata, ← hsize] at hwritten
          have hstart : (if stream.mode = .append then stream.size else stream.position)
              ≤ data.length := by
            split <;> omega
          generalize (if stream.mode = .append then stream.size else stream.position) = start
            at hwritten hstart ⊢
          have hlength := Bytes.length_overwrite hstart new
          have hbytes : found = data.overwrite start new := by
            rcases Disk.writeAt_of_file hdata hstart new with ⟨hnone, hsame⟩ | hsome
            · obtain rfl := Except.ok.inj (hwritten.symm.trans hnone)
              rw [hdata] at hfound
              rw [hsame]
              cases hfound
              rfl
            · obtain rfl := Except.ok.inj (hwritten.symm.trans hsome)
              rw [Disk.setBytes_node hdata] at hfound
              cases hfound
              rfl
          rw [hbytes, hlength, hsize]
          exact ⟨rfl, Nat.le_max_right _ _⟩

theorem seek {offset : Int} {origin : Origin} (h : stream.Settled disk)
    (hseek : stream.seek offset origin = .ok next) : next.Settled disk := by
  rw [FileStream.seek] at hseek
  split at hseek
  · cases hseek
  next hopen =>
    cases htarget : seekTarget stream.position stream.size offset origin with
    | error error =>
      rw [htarget] at hseek
      cases hseek
    | ok target =>
      rw [htarget] at hseek
      obtain rfl := Except.ok.inj hseek
      refine ⟨?_, ?_, h.viewed⟩
      · intro hnone
        have hnone : stream.node = none := hnone
        simp [isOpen, hnone] at hopen
      · intro node data hnode hdata
        have hsize := (h.held node data hnode hdata).1
        exact ⟨hsize, hsize ▸ seekTarget_le htarget⟩

/-- A view that is mapped shows the file as it is. -/
theorem map (h : stream.Settled disk) (hmap : stream.map disk = .ok next) :
    next.Settled disk := by
  have hmode := mode_of_map hmap
  obtain ⟨hopen, size, rfl⟩ := map_eq_ok hmap
  refine ⟨fun hnone => absurd hnone hopen, h.held, ?_⟩
  intro shown hshown
  refine ⟨hmode, fun node data hnode hdata => ?_⟩
  obtain rfl : size = shown := Option.some.inj hshown
  have hnode : stream.node = some node := hnode
  have hsize := (h.held node data hnode hdata).1
  rw [FileStream.map] at hmap
  simp only [hnode] at hmap
  split at hmap
  · cases hmap
  · split at hmap
    next hmapped =>
      have hsame := congrArg FileStream.viewSize (Except.ok.inj hmap)
      exact (h.viewed size hsame).2 node data hnode hdata
    next =>
      split at hmap
      next hempty =>
        obtain rfl : 0 = size :=
          Option.some.inj (congrArg FileStream.viewSize (Except.ok.inj hmap))
        rw [← hsize, hempty]
      next =>
        split at hmap
        next =>
          have hsame := congrArg FileStream.viewSize (Except.ok.inj hmap)
          rw [← Disk.size_of_file hdata]
          exact (Option.some.inj hsame).symm
        next => cases hmap

theorem unmap (h : stream.Settled disk) : stream.unmap.Settled disk :=
  ⟨fun hnone => ⟨(h.closed hnone).1, rfl⟩, h.held, by simp [FileStream.unmap]⟩

theorem keeps (h : stream.Settled disk) : stream.Keeps Settled disk where
  setMode := h.setMode
  tryOpen _ _ := h.tryOpen
  close := close
  read _ _ _ := h.read
  write _ _ _ := h.write
  seek _ _ _ := h.seek
  map _ := h.map
  unmap := h.unmap

end Settled

end FileStream

namespace Stream

/-- What holds of every stream between two calls. -/
def Settled (disk : Disk) : Stream → Prop
  | memory stream => stream.Settled
  | file stream => stream.Settled disk
  | entry _ => False

variable {disk : Disk} {stream : Stream}

/-- Every permitted call leaves a settled stream. -/
theorem Settled.perform (h : stream.Settled disk) (mounts : Mounts) {call : Call}
    (hpermitted : call.Permitted stream) :
    (stream.perform mounts disk call).1.Settled (stream.perform mounts disk call).2 := by
  cases stream with
  | memory stream =>
    obtain ⟨next, heq, hnext⟩ := (MemoryStream.Settled.keeps h).perform h mounts disk hpermitted
    rw [heq]
    exact hnext
  | file stream =>
    obtain ⟨next, later, heq, hnext⟩ := (FileStream.Settled.keeps h).perform h mounts hpermitted
    rw [heq]
    exact hnext
  | entry stream => exact h.elim

/-- All that is reached is settled. -/
theorem Reached.settled (h : Reached disk stream) : stream.Settled disk := by
  induction h with
  | memory disk uri data => exact ⟨Nat.zero_le _, fun _ => ⟨rfl, rfl⟩⟩
  | file disk uri => exact ⟨fun _ => ⟨rfl, rfl⟩, by simp, by simp⟩
  | perform _ mounts call hpermitted ih => exact ih.perform mounts hpermitted
  | @others disk stream _ later hkept ih =>
    cases stream with
    | memory stream => exact ih
    | file stream => exact FileStream.Settled.others ih hkept
    | entry stream => exact ih

end Stream

end ArchiveVfs
