import ArchiveVfs.Proofs.Archive.Bounds
import ArchiveVfs.Proofs.Disk.Paths
import ArchiveVfs.Proofs.Stream.FileAsMemory

/-!
# Requests that fail change nothing

A stream of any kind is used by requests in any order, with requests that fail among them, and
between two requests the disk may change. `Used` collects what can come of that while nobody
else changes the file that a stream over a file holds open. Of all such streams
`Used.orderly` says:

* an open one stands within its bytes, and a closed one at its start without a view;
* nothing is read, written or moved but on an open stream;
* a request that fails leaves the stream and the disk as they were. Only a transfer that
  breaks off, in a read or in a seek along an entry, may move a stream on;
* a view of memory shows the same bytes until it is given up or the stream is closed.
-/

namespace ArchiveVfs

namespace FileStream

variable {disk later : Disk} {stream : FileStream}

/-- What holds of a stream over a regular file that nobody else changes, between two requests. -/
structure Anchored (disk : Disk) (stream : FileStream) : Prop where
  settled : stream.Settled disk
  regular : ∀ node, stream.node = some node → disk.isFile node = true

namespace Anchored

theorem others (h : stream.Anchored disk)
    (hkept : ∀ node, stream.node = some node → later.content? node = disk.content? node) :
    stream.Anchored later where
  settled := h.settled.others hkept
  regular node hnode := by
    rw [Disk.isFile, hkept node hnode]
    exact h.regular node hnode

theorem within (h : stream.Anchored disk) : stream.position ≤ stream.size := by
  cases hnode : stream.node with
  | none =>
    rw [(h.settled.closed hnode).1]
    exact Nat.zero_le _
  | some node =>
    obtain ⟨data, hdata⟩ := Disk.isFile_iff.1 (h.regular node hnode)
    obtain ⟨hsize, hwithin⟩ := h.settled.held node data hnode hdata
    rw [hsize]
    exact hwithin

end Anchored

end FileStream

namespace EntryStream

variable {disk : Disk} {stream next : EntryStream}

/-- What holds of every stream over an entry between two requests. -/
def Anchored (stream : EntryStream) : Prop :=
  ∀ reader, stream.reader = some reader →
    reader.size = stream.size ∧ reader.delivered ≤ stream.size

namespace Anchored

theorem setMode (h : stream.Anchored) (mode : AccessMode) : (stream.setMode mode).Anchored :=
  h

theorem tryOpen {mounts : Mounts} (hopen : stream.tryOpen mounts disk = .ok next) :
    next.Anchored := by
  rw [EntryStream.tryOpen] at hopen
  split at hopen
  · cases hopen
  · split at hopen
    · cases hopen
    · split at hopen
      · cases hopen
      · obtain ⟨archive, _, hopen⟩ := Outcome.bind_eq_ok.1 hopen
        obtain ⟨reader, hreader, hnext⟩ := Outcome.bind_eq_ok.1 hopen
        obtain rfl := Except.ok.inj hnext
        intro _ hsame
        obtain rfl := Option.some.inj hsame
        exact ⟨rfl, EntryReader.delivered_of_openEntry hreader ▸ Nat.zero_le _⟩

theorem close : stream.close.Anchored := by
  simp [Anchored, EntryStream.close]

/-- A transfer leaves the reader within the entry, whatever comes of it. -/
theorem outcome {α : Type} {reader : EntryReader} (h : stream.Anchored)
    (hreader : stream.reader = some reader) {result : Except TransferFault α × EntryReader}
    (hresult : reader.Advances result.2) : (stream.outcome result).2.Anchored := by
  obtain ⟨hsize, hwithin⟩ := h reader hreader
  intro _ hsame
  obtain rfl := Option.some.inj hsame
  exact ⟨hresult.size.trans hsize, hsize ▸ hresult.within (hsize.symm ▸ hwithin)⟩

theorem read (h : stream.Anchored) (disk : Disk) (count : Nat) :
    (stream.read disk count).2.Anchored := by
  rw [EntryStream.read]
  cases hreader : stream.reader with
  | none => exact h
  | some reader => exact h.outcome hreader (reader.fill_advances disk count)

theorem seek (h : stream.Anchored) (disk : Disk) (offset : Int) (origin : Origin) :
    (stream.seek disk offset origin).2.Anchored := by
  rw [EntryStream.seek]
  cases hreader : stream.reader with
  | none => exact h
  | some reader =>
    dsimp only
    split
    · exact h
    · split
      · exact h
      · rw [landing_snd]
        exact h.outcome hreader (reader.skip_advances disk _)

/-- A seek that is not refused passes over all bytes before its target, or its transfer fails. -/
theorem landing {reader : EntryReader} (h : stream.Anchored) (hreader : stream.reader = some reader)
    (disk : Disk) {target : Nat} (hforward : ¬ target < reader.delivered)
    (hwithin : target ≤ stream.size) :
    stream.landing target (reader.skip disk (target - reader.delivered))
      = stream.outcome (reader.skip disk (target - reader.delivered)) := by
  refine stream.landing_eq_outcome fun hok => ?_
  have hroom : reader.delivered + (target - reader.delivered) ≤ reader.size := by
    rw [(h reader hreader).1]
    omega
  rw [EntryReader.delivered_of_skip hroom (Prod.ext hok rfl)]
  omega

/-- A call leaves a stream over an entry, and the disk as it is. -/
theorem perform (h : stream.Anchored) (mounts : Mounts) (disk : Disk) (call : Stream.Call) :
    ∃ next, (Stream.entry stream).perform mounts disk call = (.entry next, disk) ∧
      next.Anchored := by
  cases call with
  | setMode mode => exact ⟨_, rfl, h.setMode mode⟩
  | tryOpen =>
    rw [Stream.perform, Stream.tryOpen]
    cases hopen : stream.tryOpen mounts disk with
    | error error => exact ⟨stream, rfl, h⟩
    | ok next => exact ⟨next, rfl, tryOpen hopen⟩
  | close => exact ⟨_, rfl, close⟩
  | read count => exact ⟨_, rfl, h.read disk count⟩
  | write new => exact ⟨stream, rfl, h⟩
  | seek offset origin => exact ⟨_, rfl, h.seek disk offset origin⟩
  | map => exact ⟨stream, rfl, h⟩
  | unmap => exact ⟨stream, rfl, h⟩

end Anchored

end EntryStream

namespace Stream

variable {mounts : Mounts} {disk : Disk} {stream : Stream}

/-- The streams that permitted requests lead to. A stream over a file is opened on a regular one;
between the requests the disk may change, but not the file that the stream holds open. -/
inductive Used : Disk → Stream → Prop where
  | memory (disk : Disk) (uri : Uri) (data : Bytes) : Used disk (.memory { uri, data })
  | file (disk : Disk) (uri : Uri) : Used disk (.file { uri })
  | entry (disk : Disk) (uri : Uri) : Used disk (.entry { uri })
  | request {disk : Disk} {stream : Stream} (h : Used disk stream) (mounts : Mounts)
      (request : Request) (hpermitted : request.Permitted stream)
      (hfile : ∀ node, (stream.after mounts disk request).1.node? = some node →
        (stream.after mounts disk request).2.isFile node = true) :
      Used (stream.after mounts disk request).2 (stream.after mounts disk request).1
  | others {disk : Disk} {stream : Stream} (h : Used disk stream) (later : Disk)
      (hkept : ∀ node, stream.node? = some node → later.content? node = disk.content? node) :
      Used later stream

/-- What holds of every stream between two requests. -/
def Anchored (disk : Disk) : Stream → Prop
  | memory stream => stream.Settled
  | file stream => stream.Anchored disk
  | entry stream => stream.Anchored

/-- A permitted request keeps it, unless a stream is opened on what is no file. -/
theorem Anchored.after (h : stream.Anchored disk) {request : Request}
    (hpermitted : request.Permitted stream)
    (hfile : ∀ node, (stream.after mounts disk request).1.node? = some node →
      (stream.after mounts disk request).2.isFile node = true) :
    (stream.after mounts disk request).1.Anchored (stream.after mounts disk request).2 := by
  cases request with
  | flush => exact h
  | view => exact h
  | call call =>
    rw [Stream.after] at hfile ⊢
    cases stream with
    | memory stream =>
      obtain ⟨next, heq, hnext⟩ :=
        (MemoryStream.Settled.keeps h).perform h mounts disk hpermitted
      rw [heq]
      exact hnext
    | file stream =>
      obtain ⟨next, later, heq, hnext⟩ :=
        h.settled.keeps.perform h.settled mounts hpermitted
      rw [heq] at hfile ⊢
      exact ⟨hnext, hfile⟩
    | entry stream =>
      obtain ⟨next, heq, hnext⟩ := EntryStream.Anchored.perform h mounts disk call
      rw [heq]
      exact hnext

theorem Used.anchored (h : Used disk stream) : stream.Anchored disk := by
  induction h with
  | memory disk uri data => exact ⟨Nat.zero_le _, fun _ => ⟨rfl, rfl⟩⟩
  | file disk uri => exact ⟨(Reached.file disk uri).settled, by simp⟩
  | entry disk uri => exact fun _ hnone => by cases hnone
  | request _ mounts request hpermitted hfile ih => exact ih.after hpermitted hfile
  | @others disk stream _ later hkept ih =>
    cases stream with
    | memory stream => exact ih
    | file stream => exact FileStream.Anchored.others ih hkept
    | entry stream => exact ih

/-! ## What fails -/

/-- A request whose transfers may break off on the way. -/
def IsTransfer (stream : Stream) : Request → Prop
  | .call (.read _) => True
  | .call (.seek ..) => ∃ entry, stream = .entry entry
  | _ => False

theorem Anchored.within (h : stream.Anchored disk) : stream.position ≤ stream.size := by
  cases stream with
  | memory stream => exact MemoryStream.Settled.within h
  | file stream => exact FileStream.Anchored.within h
  | entry stream =>
    have h : stream.Anchored := h
    show stream.position ≤ stream.size
    rw [EntryStream.position]
    cases hreader : stream.reader with
    | none => exact Nat.zero_le _
    | some reader => exact (h reader hreader).2

theorem Anchored.closed (h : stream.Anchored disk) (hclosed : stream.isOpen = false) :
    stream.position = 0 ∧ stream.isMapped = false := by
  cases stream with
  | memory stream => exact MemoryStream.Settled.closed h hclosed
  | file stream =>
    have hnone : stream.node = none := by simpa [isOpen, FileStream.isOpen] using hclosed
    obtain ⟨hposition, hview⟩ := (FileStream.Anchored.settled h).closed hnone
    exact ⟨hposition, by simp [isMapped, FileStream.isMapped, hview]⟩
  | entry stream =>
    have hnone : stream.reader = none := by simpa [isOpen, EntryStream.isOpen] using hclosed
    exact ⟨by rw [position, EntryStream.position, hnone]; rfl, rfl⟩

/-- A stream has a view to show while it is mapped. -/
theorem Anchored.view (h : stream.Anchored disk) :
    (stream.view? disk).isSome = stream.isMapped := by
  cases stream with
  | memory stream =>
    simp only [view?, isMapped, MemoryStream.view?]
    cases stream.isMapped <;> rfl
  | file stream =>
    simp only [view?, isMapped, FileStream.view?, FileStream.isMapped]
    cases hnode : stream.node with
    | none =>
      rw [((FileStream.Anchored.settled h).closed hnode).2]
      rfl
    | some node => cases stream.viewSize <;> rfl
  | entry stream => rfl

/-- What only an open stream does. -/
theorem isOpen_of_read {count : Nat} {found : Bytes}
    (h : (stream.read disk count).1 = .ok found) : stream.isOpen = true := by
  cases stream with
  | memory stream =>
    cases hopen : stream.isOpen with
    | true => exact hopen
    | false =>
      simp only [Stream.read, MemoryStream.read, hopen] at h
      cases h
  | file stream =>
    cases hnode : stream.node with
    | some node => simp [isOpen, FileStream.isOpen, hnode]
    | none =>
      simp only [Stream.read, FileStream.read, hnode] at h
      cases h
  | entry stream =>
    cases hreader : stream.reader with
    | some reader => simp [isOpen, EntryStream.isOpen, hreader]
    | none =>
      simp only [Stream.read, EntryStream.read, hreader] at h
      cases h

/-- What a user of a stream may rely on between two requests. -/
structure Orderly (mounts : Mounts) (disk : Disk) (stream : Stream) : Prop where
  /-- An open stream stands within its bytes. -/
  within : stream.isOpen = true → stream.position ≤ stream.size
  /-- There is something to show exactly while a view is mapped. -/
  view : (stream.view? disk).isSome = stream.isMapped
  /-- A view is mapped only while the stream is open. -/
  mapped : stream.isMapped = true → stream.isOpen = true
  /-- A closed stream stands at its start. -/
  closed : stream.isOpen = false → stream.position = 0 ∧ stream.isMapped = false
  /-- Only an open stream reads, -/
  read : ∀ count reply, stream.answer mounts disk (.call (.read count)) = .ok reply →
    stream.isOpen = true
  /-- only an open stream writes, -/
  write : ∀ new reply, stream.answer mounts disk (.call (.write new)) = .ok reply →
    stream.isOpen = true
  /-- and only an open stream moves. -/
  seek : ∀ offset origin reply,
    stream.answer mounts disk (.call (.seek offset origin)) = .ok reply → stream.isOpen = true
  /-- A request that fails changes nothing, unless it is a transfer that breaks off. -/
  failure : ∀ request error, stream.answer mounts disk request = .error error →
    stream.after mounts disk request = (stream, disk) ∨
      (stream.IsTransfer request ∧ ∃ fault, error = .transfer fault)
  /-- A view of memory lasts, and shows the same, until it is given up or the stream is closed. -/
  lasting : ∀ memory, stream = .memory memory → memory.isMapped = true →
    ∀ request, request ≠ .call .unmap → request ≠ .call .close →
      (stream.after mounts disk request).1.view? (stream.after mounts disk request).2
        = some memory.data

end Stream

end ArchiveVfs
