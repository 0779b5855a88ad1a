import ArchiveVfs.Proofs.Archive.EntryReading
import ArchiveVfs.Proofs.Archive.Scenes
import ArchiveVfs.Proofs.Server.Copying
import ArchiveVfs.Proofs.Server.Histories

/-!
# What a source can be

A location that is opened to be read gives a stream over memory that is empty, one over what
the disk has at its path, or one over an entry (`Readable`). The bytes of an entry are those of
its container, and these may lie in a node of the disk (`LiesIn`): what is written elsewhere
does not change what the entry shows. Archives are mapped from files when they are mounted, and
as long as these are files still, so they are at every point of a history (`MapsFiles.afterAll`).
-/

namespace ArchiveVfs

variable {disk later : Disk}

/-- The bytes of a container lie in this node: a mounted archive is mapped from it, or one that
is not mounted is opened from it. -/
def Scene.LiesIn (scene : Scene) (file : Uri) (node : NodeId) : Prop :=
  match scene.mounts.find? file with
  | some archive => ∃ size, archive.data = .mapped node size
  | none => scene.disk.locate file.nativePath = .ok node

/-- Data that are not mapped from a node that has changed are as they were. -/
theorem ArchiveData.bytes_congr {data : ArchiveData}
    (h : ∀ node size, data = .mapped node size → later.content? node = disk.content? node) :
    data.bytes later = data.bytes disk := by
  cases data with
  | mapped node size =>
    simp only [bytes, Disk.view, Disk.bytes, h node size rfl]
  | loaded data => rfl

theorem Archive.loadData_mapped {maps : Bool} {node other : NodeId} {size : Nat}
    (h : loadData disk maps node = .ok (.mapped other size)) :
    other = node ∧ disk.isFile node = true := by
  rw [loadData] at h
  split at h
  next hmapped =>
    obtain ⟨rfl, _⟩ := ArchiveData.mapped.inj (Except.ok.inj h)
    simp only [Bool.and_eq_true] at hmapped
    exact ⟨rfl, hmapped.2⟩
  next =>
    obtain ⟨_, _, hloaded⟩ := Outcome.map_eq_ok.1 h
    cases hloaded

/-- An archive that a look-up gives and that is mapped is mapped from where its container lies. -/
theorem Scene.liesIn_of_mapped {mounts : Mounts} {file : Uri} {archive : Archive} {node : NodeId}
    {size : Nat} (hfound : mounts.findOrLoad disk file = .ok archive)
    (hdata : archive.data = .mapped node size) : LiesIn ⟨mounts, disk⟩ file node := by
  rw [Mounts.findOrLoad] at hfound
  rw [LiesIn]
  cases hfind : mounts.find? file with
  | some mounted =>
    rw [hfind] at hfound
    obtain rfl := Except.ok.inj hfound
    exact ⟨size, hdata⟩
  | none =>
    rw [hfind] at hfound
    obtain ⟨found, _, hlocate, hload, _⟩ := Archive.load_eq_ok hfound
    rw [hdata] at hload
    obtain ⟨rfl, _⟩ := Archive.loadData_mapped hload
    exact hlocate

namespace Server

open FileStream (reading)

variable {server : Server} {source target : Uri} {path : String} {stream : Stream}

/-- Mounted archives are mapped from files that the disk has. -/
def MapsFiles (server : Server) (disk : Disk) : Prop :=
  ∀ archive ∈ server.mounts.archives, ∀ node size, archive.data = .mapped node size →
    disk.isFile node = true

/-- If the files of an event are files still, what it mounts is mapped from files. -/
theorem MapsFiles.afterEvent (h : server.MapsFiles disk) (hsound : server.Sound) {event : Event}
    (hstill : ∀ node, event.disk.isFile node = true → disk.isFile node = true) :
    (server.afterEvent event).MapsFiles disk := by
  cases hevent : server.tryEvent event with
  | error error =>
    rw [afterEvent_of_error hevent]
    exact h
  | ok next =>
    rw [afterEvent_of_ok hevent]
    intro archive hin node size hdata
    obtain ⟨hturn, _⟩ := turn_of_event hsound.mounts.toOrderly hevent
    rcases hturn.mem_archives hin with hbefore | ⟨_, ⟨mountPoint, hloaded⟩, _⟩
    · exact h archive hbefore node size hdata
    · obtain ⟨found, _, _, hload, _⟩ := Archive.load_eq_ok hloaded
      rw [hdata] at hload
      obtain ⟨rfl, hfile⟩ := Archive.loadData_mapped hload
      exact hstill node hfile

/-- So for a history. -/
theorem MapsFiles.afterAll (h : server.MapsFiles disk) (hsound : server.Sound)
    {events : List Event}
    (hstill : ∀ event ∈ events, ∀ node, event.disk.isFile node = true → disk.isFile node = true) :
    (server.afterAll events).MapsFiles disk := by
  induction events generalizing server with
  | nil => exact h
  | cons event events ih =>
    obtain ⟨hfirst, hmore⟩ := List.forall_mem_cons.1 hstill
    exact ih (h.afterEvent hsound hfirst) (hsound.afterEvent event) hmore

/-- A server that has just been built has mapped nothing. -/
theorem mapsFiles_of_build {settings : Settings} {environment : Environment} {equipment : Equipment}
    (hbuild : build settings environment equipment = .ok server) : server.MapsFiles disk := by
  obtain ⟨_, _, rfl⟩ := Outcome.map_eq_ok.1 hbuild
  exact List.forall_mem_nil _

/-- The target is not the container of the archive that has the source. -/
def SparesContainer (server : Server) (disk : Disk) (source target : Uri) : Prop :=
  ∀ stream node, server.streamFor source true = .ok (.entry stream) →
    Scene.LiesIn ⟨server.mounts, disk⟩ stream.uri.archiveFile node →
    disk.locate target.nativePath ≠ .ok node

/-- An archive that a look-up gives and that is mapped is mapped from a file that has its
container. -/
theorem MapsFiles.liesIn (h : server.MapsFiles disk) {file : Uri} {archive : Archive}
    {node : NodeId} {size : Nat} (hfound : server.mounts.findOrLoad disk file = .ok archive)
    (hdata : archive.data = .mapped node size) :
    disk.isFile node = true ∧ Scene.LiesIn ⟨server.mounts, disk⟩ file node := by
  refine ⟨?_, Scene.liesIn_of_mapped hfound hdata⟩
  rw [Mounts.findOrLoad] at hfound
  cases hfind : server.mounts.find? file with
  | some mounted =>
    rw [hfind] at hfound
    obtain rfl := Except.ok.inj hfound
    exact h mounted (List.mem_of_find?_eq_some hfind) node size hdata
  | none =>
    rw [hfind] at hfound
    obtain ⟨found, _, _, hload, _⟩ := Archive.load_eq_ok hfound
    rw [hdata] at hload
    obtain ⟨rfl, hfile⟩ := Archive.loadData_mapped hload
    exact hfile

/-- All that opening a location to be read can give. -/
inductive Readable (server : Server) (disk : Disk) (source : Uri) : Stream → Prop where
  | memory : Readable server disk source
      (.memory { uri := server.target source true, isOpen := true })
  | file {node : NodeId}
      (hstream : server.streamFor source true = .ok (.file { uri := server.target source true }))
      (hlocate : disk.locate (server.target source true).nativePath = .ok node) :
      Readable server disk source (.file (reading disk (server.target source true) node 0))
  | entry {archive : Archive} {inner : String} {password : Option String} {reader : EntryReader}
      (hstream : server.streamFor source true = .ok (.entry { uri := server.target source true }))
      (hfound : server.mounts.findOrLoad disk (server.target source true).archiveFile
        = .ok archive)
      (hopen : archive.openEntry disk inner password = .ok reader) :
      Readable server disk source (.entry {
        uri := server.target source true, reader := some reader, size := reader.size })

theorem readable_of_openStream
    (h : server.openStream disk source .read true = .ok (stream, later)) :
    server.Readable disk source stream := by
  rw [openStream, streamFor] at h
  -- the scheme says which kind of stream it is
  cases hkind : server.schemes.kindOf (server.target source true).scheme with
  | error error =>
    rw [hkind] at h
    cases h
  | ok kind =>
    rw [hkind] at h
    cases kind with
    | memory =>
      obtain ⟨rfl, _⟩ := Prod.mk.inj (Except.ok.inj h)
      exact .memory
    | file =>
      have hopen : (({ uri := server.target source true } : FileStream).tryOpen disk).map
          (fun opened => (Stream.file opened.1, opened.2)) = .ok (stream, later) := h
      rw [FileStream.tryOpen_read] at hopen
      obtain ⟨opened, hnode, heq⟩ := Outcome.map_eq_ok.1 hopen
      obtain ⟨node, hlocate, rfl⟩ := Outcome.map_eq_ok.1 hnode
      obtain ⟨rfl, _⟩ := Prod.mk.inj heq
      rw [Disk.openToRead] at hlocate
      refine .file ?_ (Outcome.mapError_eq_ok.1 hlocate)
      rw [streamFor, hkind]
      rfl
    | entry =>
      have hopen : (({ uri := server.target source true } : EntryStream).tryOpen server.mounts
          disk).map (fun stream => (Stream.entry stream, disk)) = .ok (stream, later) := h
      obtain ⟨opened, hentry, heq⟩ := Outcome.map_eq_ok.1 hopen
      obtain ⟨rfl, _⟩ := Prod.mk.inj heq
      obtain ⟨_, _, _, _, hfound, hreader, rfl⟩ := EntryStream.tryOpen_eq_ok hentry
      refine .entry ?_ hfound hreader
      rw [streamFor, hkind]
      rfl

/-- The contents of a file are read from its stream at once. -/
theorem contents_of_openStream (hresolve : server.resolve path = .ok source)
    (hopen : server.openStream disk source .read true = .ok (stream, later)) :
    server.contents disk path = (stream.read disk stream.size).1 := by
  obtain rfl := openStream_read hopen
  rw [contents, hresolve, Outcome.ok_bind, hopen]
  rfl

end Server

end ArchiveVfs
