import ArchiveVfs.Proofs.Server.Inertia
import ArchiveVfs.Proofs.Server.WholeCopies

/-!
# Sizes of buffers

Copies and checksums take a source in pieces as large as a buffer. Of a source that is a file
or an entry in good order (`Shows`), the size of the pieces never shows
(`buffer_size_independent`): it is read, summed and copied as a whole, onto a target of any
contents, read-only or not. A target that is not there yet is created where the system lets it
be; in a directory that is marked read-only it does not (`copy_read_only_directory`).
-/

namespace ArchiveVfs.Server

open FileStream (reading)

variable {server : Server} {disk unlocked opened later : Disk} {source target : Uri}
  {writer last : Stream} {path : String} {node : NodeId} {data written : Bytes}
  {copySize checksumSize : UInt64}

/-! ## Sources in good order -/

/-- The bytes of the source lie in this node. -/
def ReadsFrom (server : Server) (disk : Disk) (source : Uri) (node : NodeId) : Prop :=
  match server.streamFor source true with
  | .ok (.file stream) => disk.locate stream.uri.nativePath = .ok node
  | .ok (.entry stream) => Scene.LiesIn ⟨server.mounts, disk⟩ stream.uri.archiveFile node
  | _ => False

/-- On the later disk the nodes that the source is read from have what they had. -/
def Keeps (server : Server) (disk : Disk) (source : Uri) (later : Disk) : Prop :=
  ∀ node, server.ReadsFrom disk source node → later.content? node = disk.content? node

/-- The source is a file with the data, or an entry in good order that unpacks to them. -/
inductive Shows (server : Server) (disk : Disk) (source : Uri) (data : Bytes) : Prop where
  | file {uri : Uri} {node : NodeId}
      (hstream : server.streamFor source true = .ok (.file { uri }))
      (hlocate : disk.locate uri.nativePath = .ok node)
      (hcontent : disk.content? node = some (.file data)) : Shows server disk source data
  | entry {uri : Uri} {inner : String} {container : Bytes} {items : List Zip.Item}
      (hstream : server.streamFor source true = .ok (.entry { uri }))
      (hinner : EntryStream.entryPath? uri = some inner)
      (hhas : Scene.Has uri.archiveFile container items ⟨server.mounts, disk⟩)
      (hpacks : Packs container inner (uri.queryValue Uri.passwordKey) items data) :
      Shows server disk source data

namespace Shows

/-- Opened to be read, the source delivers the data as long as its bytes are kept. -/
theorem delivers (h : server.Shows disk source data) :
    ∃ stream, server.openStream disk source .read true = .ok (stream, disk) ∧
      stream.Delivers (server.Keeps disk source) data 0 := by
  cases h with
  | @file uri node hstream hlocate hcontent =>
    refine ⟨.file (reading disk uri node 0), ?_, ?_⟩
    · rw [openStream, hstream, Outcome.ok_bind]
      show (({ uri } : FileStream).tryOpen disk).map _ = _
      rw [FileStream.tryOpen_read, Disk.openToRead, hlocate]
      rfl
    · have hreads : server.ReadsFrom disk source node := by
        rw [ReadsFrom, hstream]
        exact hlocate
      rw [reading, Disk.size_of_file hcontent]
      exact .file uri node .read none rfl
        (fun later hkeeps => by rw [hkeeps node hreads, hcontent]) (Nat.zero_le _)
  | @entry uri inner container items hstream hinner hhas hpacks =>
    obtain ⟨archive, hfound, hindex, hbytes⟩ := hhas.archive hpacks.listed
    have hkept : ∀ later, server.Keeps disk source later →
        archive.data.bytes later = container := by
      intro later hkeeps
      rw [ArchiveData.bytes_congr fun node size hdata => hkeeps node ?_, hbytes]
      rw [ReadsFrom, hstream]
      exact Scene.liesIn_of_mapped hfound hdata
    obtain ⟨reader, hopen, hat⟩ := Archive.openEntry_at hpacks hindex hkept fun _ _ => rfl
    refine ⟨.entry { uri, reader := some reader, size := data.length }, ?_, .entry uri .read hat⟩
    rw [Scene.archive] at hfound
    rw [openStream, hstream, Outcome.ok_bind, ← hat.size]
    show (({ uri } : EntryStream).tryOpen server.mounts disk).map _ = _
    simp only [EntryStream.tryOpen, hinner, hfound, Outcome.ok_bind, hopen]
    rfl

theorem contents (h : server.Shows disk source data) (hresolve : server.resolve path = .ok source) :
    server.contents disk path = .ok data := by
  obtain ⟨stream, hopen, hdelivers⟩ := h.delivers
  rw [contents_of_openStream hresolve hopen]
  exact hdelivers.read_whole fun _ _ => rfl

/-- However large the pieces are, the register has taken all data in the end. -/
theorem checksum (h : server.Shows disk source data) (hresolve : server.resolve path = .ok source)
    (hbuffer : 0 < server.settings.checksumBufferSize.toNat) :
    server.checksum disk path = .ok (Checksum.ofBytes data) := by
  obtain ⟨stream, hopen, hdelivers⟩ := h.delivers
  rw [Server.checksum, hresolve, Outcome.ok_bind, hopen]
  exact checksumRounds_delivers hdelivers (fun _ _ => rfl) hbuffer _ _
    (by rw [hdelivers.size]; omega)

/-- What the source is read from is a file. -/
theorem content_of_readsFrom (h : server.Shows disk source data)
    (hreads : server.ReadsFrom disk source node) :
    ∃ bytes, disk.content? node = some (.file bytes) := by
  rw [ReadsFrom] at hreads
  cases h with
  | file hstream hlocate hcontent =>
    rw [hstream] at hreads
    obtain rfl := Except.ok.inj (hlocate.symm.trans hreads)
    exact ⟨_, hcontent⟩
  | entry hstream _ hhas hpacks =>
    rw [hstream] at hreads
    dsimp only [Scene.LiesIn] at hreads
    cases hhas with
    | mounted hfound _ hbytes =>
      rw [hfound] at hreads
      obtain ⟨size, hdata⟩ := hreads
      have hlisted := hpacks.listed
      rw [← hbytes, hdata] at hlisted
      exact Disk.isFile_iff.1 (ArchiveData.isFile_of_items hlisted)
    | unmounted hnone hlocate hfile =>
      rw [hnone] at hreads
      obtain rfl := Except.ok.inj (hlocate.symm.trans hreads)
      exact ⟨_, hfile⟩

/-- The source is as it was where its bytes are kept and paths lead where they led. -/
theorem survives (h : server.Shows disk source data) (hkeeps : server.Keeps disk source later)
    (hpaths : ∀ path node, disk.locate path = .ok node → later.locate path = .ok node) :
    server.Shows later source data := by
  cases h with
  | @file uri node hstream hlocate hcontent =>
    have hreads : server.ReadsFrom disk source node := by
      rw [ReadsFrom, hstream]
      exact hlocate
    exact .file hstream (hpaths _ _ hlocate) (by rw [hkeeps node hreads, hcontent])
  | @entry uri inner container items hstream hinner hhas hpacks =>
    have hreads (node : NodeId) (hlies : Scene.LiesIn ⟨server.mounts, disk⟩ uri.archiveFile node) :
        server.ReadsFrom disk source node := by
      rw [ReadsFrom, hstream]
      exact hlies
    refine .entry hstream hinner ?_ hpacks
    cases hhas with
    | @mounted archive hfound hindex hbytes =>
      refine .mounted hfound hindex ?_
      rw [← hbytes]
      refine ArchiveData.bytes_congr fun node size hdata => hkeeps node (hreads node ?_)
      exact Scene.liesIn_of_mapped (by rw [Mounts.findOrLoad, hfound]) hdata
    | @unmounted node hnone hlocate hfile =>
      have hlies : Scene.LiesIn ⟨server.mounts, disk⟩ uri.archiveFile node := by
        rw [Scene.LiesIn, hnone]
        exact hlocate
      exact .unmounted hnone (hpaths _ _ hlocate) ((hkeeps node (hreads node hlies)).trans hfile)

end Shows

/-! ## Copies -/

/-- The target is not what the source is read from. -/
def Apart (server : Server) (disk : Disk) (source target : Uri) : Prop :=
  ∀ node, server.ReadsFrom disk source node → disk.locate target.nativePath ≠ .ok node

/-- What a copy leaves: the data at the target, and every other file as it was. -/
structure Copied (disk later : Disk) (target : Uri) (data : Bytes) : Prop where
  stored : ∃ node, later.HasFile target.nativePath node data
  others : ∀ node bytes, disk.content? node = some (.file bytes) →
    disk.locate target.nativePath ≠ .ok node → later.content? node = some (.file bytes)

section Copies

variable (hshows : server.Shows disk source data) (hapart : server.Apart disk source target)
include hshows hapart

/-- While the target is filled, the bytes of the source are kept. -/
theorem keeps_of_filled (halike : Disk.Alike disk unlocked)
    (htarget : server.openStream unlocked target .write false = .ok (writer, opened))
    (hfilled : Filled opened writer written last later) : server.Keeps disk source later := by
  intro node hreads
  obtain ⟨bytes, hbytes⟩ := hshows.content_of_readsFrom hreads
  rw [others_of_filled halike htarget hfilled hbytes (hapart node hreads), hbytes]

/-- A copy whose target can be opened writes the data, as if at once. -/
theorem copyTo_opened (hbuffer : 0 < server.settings.copyBufferSize.toNat)
    (hunlock : unlockTarget disk target = .ok unlocked) (halike : Disk.Alike disk unlocked)
    (htarget : server.openStream unlocked target .write false = .ok (writer, opened)) :
    server.copyTo disk source target = writer.pour opened data := by
  obtain ⟨stream, hopen, hdelivers⟩ := hshows.delivers
  exact copyTo_pours hbuffer hunlock halike hopen hdelivers htarget fun _ _ _ hfilled =>
    keeps_of_filled hshows hapart halike htarget hfilled

/-- A copy to where a file can be left leaves the data there, and the source as it was. -/
theorem copyTo_copies (hbuffer : 0 < server.settings.copyBufferSize.toNat)
    (hkind : server.schemes.kindOf target.scheme = .ok .file) (hfile : target.isFile = true)
    (hhold : disk.CanHold target.nativePath) :
    ∃ later, server.copyTo disk source target = (.ok (), later) ∧ Copied disk later target data ∧
      server.Shows later source data := by
  obtain ⟨unlocked, hunlock, hunlocked⟩ := unlockTarget_eq disk target
  have halike := hunlocked.alike
  obtain ⟨node, opened, hopen, hempty⟩ := hunlocked.openNode hfile hhold
  have hnode : opened.isFile node = true := Disk.isFile_iff.2 ⟨[], hempty.content⟩
  have htarget := openStream_write hkind hopen
  have hfilled : Filled opened (.file (.writing target node 0)) data _ _ := .file target data hnode
  refine ⟨opened.setBytes node data, ?_, ⟨⟨node, hempty.setBytes data⟩, ?_⟩, ?_⟩
  · rw [copyTo_opened hshows hapart hbuffer hunlock halike htarget]
    exact Stream.pour_emptied target (Disk.openNode_write_cases hopen) hnode data
  · exact fun _ _ hbytes helsewhere => others_of_filled halike htarget hfilled hbytes helsewhere
  · exact hshows.survives (keeps_of_filled hshows hapart halike htarget hfilled)
      fun _ _ hlocate => locate_of_filled halike htarget hfilled hlocate

end Copies

/-! ## Other sizes -/

/-- The server with other sizes of its buffers. -/
def withBuffers (server : Server) (copySize checksumSize : UInt64) : Server :=
  { server with settings := { server.settings with
      copyBufferSize := copySize
      checksumBufferSize := checksumSize } }

/-- No event looks at the sizes. -/
theorem inert_withBuffers (copySize checksumSize : UInt64) :
    Inert fun server => server.withBuffers copySize checksumSize where
  resolve _ _ := rfl
  standardArchive _ := rfl
  assigns _ := rfl
  schemes _ := rfl
  mounts _ := rfl
  standardMounted _ := rfl
  withAssigns _ _ := rfl
  withSchemes _ _ := rfl
  withMounts _ _ := rfl
  withStandard _ _ := rfl

theorem Shows.withBuffers (h : server.Shows disk source data) :
    (server.withBuffers copySize checksumSize).Shows disk source data := by
  cases h with
  | file hstream hlocate hcontent => exact .file hstream hlocate hcontent
  | entry hstream hinner hhas hpacks => exact .entry hstream hinner hhas hpacks

/-- To any target apart from the source, copies go alike. -/
theorem copyTo_withBuffers (hshows : server.Shows disk source data)
    (hapart : server.Apart disk source target)
    (hbuffer : 0 < server.settings.copyBufferSize.toNat) (hother : 0 < copySize.toNat) :
    (server.withBuffers copySize checksumSize).copyTo disk source target
      = server.copyTo disk source target := by
  obtain ⟨unlocked, hunlock, hunlocked⟩ := unlockTarget_eq disk target
  have halike := hunlocked.alike
  have hwriter : (server.withBuffers copySize checksumSize).openStream unlocked target .write false
      = server.openStream unlocked target .write false := rfl
  -- a target that does not open fails before anything is moved
  cases htarget : server.openStream unlocked target .write false with
  | error error =>
    obtain ⟨stream, hopen, _⟩ := hshows.delivers
    have hreader : server.openStream unlocked source .read true = .ok (stream, unlocked) := by
      rw [openStream_alike halike, hopen]
      rfl
    have hsame : (server.withBuffers copySize checksumSize).openStream unlocked source .read true
        = server.openStream unlocked source .read true := rfl
    rw [copyTo, copyTo, hunlock]
    simp only [hsame, hreader, hwriter, htarget]
  | ok target =>
    obtain ⟨writer, opened⟩ := target
    rw [copyTo_opened hshows hapart hbuffer hunlock halike htarget]
    exact copyTo_opened hshows.withBuffers hapart hother hunlock halike (hwriter.trans htarget)

/-- Settings that are accepted have buffers. -/
theorem buffers_of_build {settings : Settings} {environment : Environment} {equipment : Equipment}
    (hbuild : build settings environment equipment = .ok server) :
    0 < server.settings.copyBufferSize.toNat ∧ 0 < server.settings.checksumBufferSize.toNat :=
  ⟨copyBuffer_afterAll hbuild [], (sound_of_build hbuild).buffer⟩

/-- Servers that are built from settings with other sizes differ in the sizes. -/
theorem build_withBuffers {settings : Settings} {environment : Environment} {equipment : Equipment}
    {first second : Server} (hfirst : build settings environment equipment = .ok first)
    (hsecond : build { settings with
      copyBufferSize := copySize, checksumBufferSize := checksumSize } environment equipment
        = .ok second) : second = first.withBuffers copySize checksumSize := by
  obtain ⟨_, _, rfl⟩ := Outcome.map_eq_ok.1 hfirst
  obtain ⟨_, _, rfl⟩ := Outcome.map_eq_ok.1 hsecond
  rfl

/-- At every point of a history, a source in good order is read, summed and copied as a whole:
a copy to where a file can be left leaves the data there and everything else as it was. A server
built with other sizes of its buffers, with the same history, does the same. -/
theorem buffer_size_independent {settings : Settings} {environment : Environment}
    {equipment : Equipment} {first second : Server}
    (hfirst : build settings environment equipment = .ok first)
    (hsecond : build { settings with
      copyBufferSize := copySize, checksumBufferSize := checksumSize } environment equipment
        = .ok second) (events : List Event)
    (hsource : (first.afterAll events).resolve path = .ok source)
    (hshows : (first.afterAll events).Shows disk source data) :
    (first.afterAll events).contents disk path = .ok data ∧
    (first.afterAll events).checksum disk path = .ok (Checksum.ofBytes data) ∧
    (∀ targetPath target, (first.afterAll events).resolve targetPath = .ok target →
      target.isFile = true → (first.afterAll events).schemes.kindOf target.scheme = .ok .file →
      (first.afterAll events).Apart disk source target → disk.CanHold target.nativePath →
      ∃ later, (first.afterAll events).copyFile disk path targetPath = (.ok (), later) ∧
        Copied disk later target data ∧ (first.afterAll events).contents later path = .ok data) ∧
    (second.afterAll events).contents disk path = (first.afterAll events).contents disk path ∧
    (second.afterAll events).checksum disk path = (first.afterAll events).checksum disk path ∧
    ∀ targetPath, (∀ target, (first.afterAll events).resolve targetPath = .ok target →
        (first.afterAll events).Apart disk source target) →
      (second.afterAll events).copyFile disk path targetPath
        = (first.afterAll events).copyFile disk path targetPath := by
  have hbuffers := buffers_of_build hfirst
  have hothers := buffers_of_build hsecond
  obtain rfl := build_withBuffers hfirst hsecond
  -- the sizes may as well be set after the history
  have hsame : (first.withBuffers copySize checksumSize).afterAll events
      = (first.afterAll events).withBuffers copySize checksumSize :=
    afterAll_inert (inert_withBuffers copySize checksumSize) (fun _ _ => rfl) events
  rw [← settings_afterAll (sound_of_build hfirst) events] at hbuffers
  rw [hsame]
  generalize first.afterAll events = server at *
  have hresolve : (server.withBuffers copySize checksumSize).resolve path = .ok source := hsource
  refine ⟨hshows.contents hsource, hshows.checksum hsource hbuffers.2, ?_, ?_, ?_, ?_⟩
  · intro targetPath target htarget hfile hkind hapart hhold
    obtain ⟨later, hcopy, hcopied, hlater⟩ :=
      copyTo_copies hshows hapart hbuffers.1 hkind hfile hhold
    rw [copyFile_eq hsource htarget]
    exact ⟨later, hcopy, hcopied, hlater.contents hsource⟩
  · rw [hshows.contents hsource]
    exact hshows.withBuffers.contents hresolve
  · rw [hshows.checksum hsource hbuffers.2]
    exact hshows.withBuffers.checksum hresolve hothers.2
  · intro targetPath hapart
    have halso : (server.withBuffers copySize checksumSize).resolve targetPath
        = server.resolve targetPath := rfl
    cases htarget : server.resolve targetPath with
    | error error => rw [copyFile, copyFile, hresolve, hsource, halso, htarget]
    | ok target =>
      rw [copyFile_eq hsource htarget, copyFile_eq hresolve (halso.trans htarget)]
      exact copyTo_withBuffers hshows (hapart target htarget) hbuffers.1 hothers.1

/-! ## Copies of one file -/

/-- The small server shows the one file of a disk. -/
theorem shows_smallServer (hlocate : disk.locate "/t.zip" = .ok node)
    (hcontent : disk.content? node = some (.file data)) :
    smallServer.Shows disk (rootFile "/t.zip") data :=
  .file (streamFor_unhidden (by decide) rfl rfl)
    (by rw [(resolve_smallServer "/t.zip" (by decide)).2, hlocate]) hcontent

/-- What is not there is apart from everything. -/
theorem apart_of_missing (hmissing : disk.locate target.nativePath = .error .notFound) :
    server.Apart disk source target := by
  intro node _ hlocate
  rw [hmissing] at hlocate
  cases hlocate

/-- A file is copied alike a byte at a time. -/
theorem buffer_size_independent_small :
    ∃ later, smallServer.copyFile (oneFileDisk [107, 108] false) "/t.zip" "/k" = (.ok (), later) ∧
      (∃ node, later.HasFile "/k" node [107, 108]) ∧
      (smallServer.withBuffers 1 1).copyFile (oneFileDisk [107, 108] false) "/t.zip" "/k"
        = (.ok (), later) ∧
      (smallServer.withBuffers 1 1).checksum (oneFileDisk [107, 108] false) "/t.zip"
        = .ok (Checksum.ofBytes [107, 108]) := by
  have hsource := resolve_smallServer "/t.zip" (by decide)
  have htarget := resolve_smallServer "/k" (by decide)
  obtain ⟨hlocate, hmissing, hvacant⟩ := locate_oneFileDisk [107, 108] false
  have hfirst : build {} smallServer.environment { standardAssigns := false } = .ok smallServer :=
    rfl
  have hsecond : build { copyBufferSize := 1, checksumBufferSize := 1 } smallServer.environment
      { standardAssigns := false } = .ok (smallServer.withBuffers 1 1) := rfl
  have hshows : smallServer.Shows (oneFileDisk [107, 108] false) (rootFile "/t.zip") [107, 108] :=
    shows_smallServer hlocate rfl
  have hapart : smallServer.Apart (oneFileDisk [107, 108] false) (rootFile "/t.zip")
      (rootFile "/k") := apart_of_missing (by rw [htarget.2, hmissing])
  obtain ⟨_, hsum, hcopies, _, hsame, halike⟩ :=
    buffer_size_independent hfirst hsecond [] hsource.1 hshows
  obtain ⟨later, hcopy, hcopied, _⟩ := hcopies "/k" (rootFile "/k") htarget.1 rfl
    (by decide +kernel) hapart (by rw [htarget.2]; exact .vacant hvacant rfl)
  have hother := halike "/k" fun target hresolve => by
    obtain rfl := Except.ok.inj (htarget.1.symm.trans hresolve)
    exact hapart
  obtain ⟨node, hstored⟩ := hcopied.stored
  rw [htarget.2] at hstored
  exact ⟨later, hcopy, ⟨node, hstored⟩, hother.trans hcopy, hsame.trans hsum⟩

/-- A disk with one file, `/t.zip`, whose root directory is marked read-only. -/
def guardedDisk : Disk where
  nodes := #[{ content := .directory (Table.empty.insert "t.zip" 1) Disk.root, readOnly := true },
    { content := .file [107] }]

/-- Into a directory that is there, but is marked read-only, no file is copied. -/
theorem copy_read_only_directory :
    smallServer.resolve "/t.zip" = .ok (rootFile "/t.zip") ∧
    smallServer.resolve "/k" = .ok (rootFile "/k") ∧
    smallServer.Shows guardedDisk (rootFile "/t.zip") [107] ∧
    smallServer.Apart guardedDisk (rootFile "/t.zip") (rootFile "/k") ∧
    guardedDisk.directoryExists "/" = true ∧ guardedDisk.locate "/k" = .error .notFound ∧
    smallServer.copyFile guardedDisk "/t.zip" "/k"
      = (.error (.disk .openStream "/k" .denied), guardedDisk) := by
  have hsource := resolve_smallServer "/t.zip" (by decide)
  have htarget := resolve_smallServer "/k" (by decide)
  have halike : Disk.Alike (oneFileDisk [107] false) guardedDisk :=
    ⟨rfl, fun id => match id with | 0 => rfl | 1 => rfl | _ + 2 => rfl⟩
  obtain ⟨hthere, hnowhere, _⟩ := locate_oneFileDisk [107] false
  have hlocate : guardedDisk.locate "/t.zip" = .ok 1 := by rw [halike.locate, hthere]
  have hmissing : guardedDisk.locate "/k" = .error .notFound := by rw [halike.locate, hnowhere]
  have hroute : Disk.Route.ofPath "/k"
      = .ok { fromRoot := true, names := ["k"], slashed := false } := by decide +kernel
  have hnone : (Table.empty.insert "t.zip" 1).get? "k" = none := by decide
  have hvacant : guardedDisk.findToCreate "/k" = .ok (.vacancy Disk.root "k") :=
    Disk.findToCreate_vacant hroute rfl (by decide +kernel) hnone
  have hdenied : guardedDisk.openNode .write "/k" = .error .denied := by
    rw [Disk.openNode, Disk.openOrCreate, hvacant]
    rfl
  have hunlock : unlockTarget guardedDisk (rootFile "/k") = .ok guardedDisk := by
    rw [unlockTarget, htarget.2, Disk.fileExists, hmissing]
    rfl
  have hwriter : smallServer.openStream guardedDisk (rootFile "/k") .write false
      = .error (.disk .openStream "/k" .denied) := by
    have hkind : smallServer.schemes.kindOf
        (smallServer.target (rootFile "/k") false).scheme = .ok .file := by decide +kernel
    rw [openStream, streamFor, hkind]
    show (({ uri := rootFile "/k", mode := .write } : FileStream).tryOpen guardedDisk).map _ = _
    simp only [FileStream.tryOpen, htarget.2, hdenied]
    rfl
  have hshows : smallServer.Shows guardedDisk (rootFile "/t.zip") [107] :=
    shows_smallServer hlocate rfl
  obtain ⟨reader, hreader, _⟩ := hshows.delivers
  refine ⟨hsource.1, htarget.1, hshows, apart_of_missing (by rw [htarget.2, hmissing]), ?_,
    hmissing, ?_⟩
  · rw [Disk.directoryExists, locate_root _ rfl]
    rfl
  · rw [copyFile_eq hsource.1 htarget.1, copyTo, hunlock]
    simp only [hreader, hwriter]

end ArchiveVfs.Server
