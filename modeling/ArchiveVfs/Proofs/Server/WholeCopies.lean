import ArchiveVfs.Proofs.Server.CopyWithoutSource
import ArchiveVfs.Proofs.Server.Moving
import ArchiveVfs.Proofs.Server.Sources

/-!
# What a copy that succeeds leaves

A copy that succeeds has moved the whole contents of its source to its target
(`copy_contents`). There is one exception. The target is emptied after the source
has been opened, so a file that is copied onto itself is empty before the first byte is read;
the read finds nothing, which the copy takes for the end (`copy_onto_itself`).
-/

namespace ArchiveVfs.Server

open FileStream (reading)

variable {server : Server} {disk unlocked opened later : Disk} {source target : Uri}
  {reader writer : Stream} {data : Bytes} {chunk : Nat}

/-- The target has the data. Memory and devices keep nothing. -/
def Receives (server : Server) (disk later : Disk) (target : Uri) (data : Bytes) : Prop :=
  server.schemes.kindOf target.scheme = .ok .memory ∨
  ∃ node, later.locate target.nativePath = .ok node ∧
    (disk.locate target.nativePath = .ok node ∧ disk.isFile node = false ∨
      later.content? node = some (.file data))

/-- Whether the source is read from what is at the target. -/
def readsTarget (server : Server) (disk : Disk) (source target : Uri) : Bool :=
  match server.streamFor source true with
  | .ok (.file stream) =>
    match disk.locate stream.uri.nativePath, disk.locate target.nativePath with
    | .ok node, .ok other => node = other
    | _, _ => false
  | _ => false

/-! ## The target -/

/-- A target that was opened keeps nothing, or is a file that is empty now. -/
theorem keeps_nothing_or_file (halike : Disk.Alike disk unlocked)
    (htarget : server.openStream unlocked target .write false = .ok (writer, opened)) :
    (∀ written last later, Filled opened writer written last later →
      ∀ data, server.Receives disk later target data) ∨
    ∃ node, writer = .file (.writing target node 0) ∧
      unlocked.Emptied target.nativePath node opened ∧
      opened.HasFile target.nativePath node [] := by
  rcases openStream_write_cases htarget with ⟨hkind, _⟩ | ⟨_, node, rfl, hemptied⟩
  · exact .inl fun _ _ _ _ _ => .inl hkind
  · rcases hemptied.hasFile with hfile | ⟨hlocate, hdevice, rfl⟩
    · exact .inr ⟨node, rfl, hemptied, hfile⟩
    · left
      intro written last later hfilled data
      rw [halike.locate] at hlocate
      cases hfilled with
      | device =>
        rw [halike.isFile] at hdevice
        exact .inr ⟨node, by rw [halike.locate, hlocate], .inl ⟨hlocate, hdevice⟩⟩
      | file _ _ hfile =>
        rw [hdevice] at hfile
        cases hfile

/-- A target has what was written to it. -/
theorem receives_of_filled {last : Stream} (halike : Disk.Alike disk unlocked)
    (htarget : server.openStream unlocked target .write false = .ok (writer, opened))
    (hfilled : Filled opened writer data last later) : server.Receives disk later target data := by
  rcases keeps_nothing_or_file halike htarget with hnothing | ⟨node, rfl, _, hfile⟩
  · exact hnothing _ _ _ hfilled data
  · cases hfilled with
    | device _ _ hdevice =>
      rw [Disk.isFile_iff.2 ⟨[], hfile.content⟩] at hdevice
      cases hdevice
    | file =>
      have hdata := hfile.setBytes data
      exact .inr ⟨node, hdata.located, .inr hdata.content⟩

/-! ## Each kind of source -/

/-- From a source without bytes nothing moves. -/
theorem receives_nothing (halike : Disk.Alike disk unlocked)
    (htarget : server.openStream unlocked target .write false = .ok (writer, opened))
    (hend : reader.atEnd = true)
    (hcopy : copyRounds chunk (reader.size + 1)
        { source := reader, target := writer, disk := opened }
      = (.ok (), later)) :
    server.Receives disk later target [] := by
  rw [copyRounds_atEnd _ _ hend] at hcopy
  obtain ⟨_, rfl⟩ := Prod.mk.inj hcopy
  exact receives_of_filled halike htarget (.ofOpen htarget)

/-- A file that is not at the target moves as a whole. -/
theorem receives_file {node : NodeId} (halike : Disk.Alike disk unlocked)
    (htarget : server.openStream unlocked target .write false = .ok (writer, opened))
    (hdata : disk.content? node = some (.file data))
    (helsewhere : disk.locate target.nativePath ≠ .ok node) (hchunk : 0 < chunk)
    (hcopy : copyRounds chunk (disk.size node + 1)
        { source := .file (reading disk source node 0), target := writer, disk := opened }
      = (.ok (), later)) :
    server.Receives disk later target data := by
  have hdelivers : (Stream.file (reading disk source node 0)).Delivers
      (fun disk => disk.content? node = some (.file data)) data 0 := by
    rw [reading, Disk.size_of_file hdata]
    exact .file source node .read none rfl (fun _ hsame => hsame) (Nat.zero_le _)
  have hkept : ∀ written last later, Filled opened writer written last later →
      later.content? node = some (.file data) :=
    fun _ _ _ hfilled => others_of_filled halike htarget hfilled hdata helsewhere
  rw [copyRounds_pours hdelivers (.ofOpen htarget) hkept hchunk
    (by rw [Disk.size_of_file hdata]; omega)] at hcopy
  obtain ⟨last, hfilled⟩ := (Filled.ofOpen htarget).pour hcopy
  exact receives_of_filled halike htarget hfilled

/-- A file that has been emptied since it was opened has nothing to move. -/
theorem copyRounds_emptied {node : NodeId} (hempty : opened.content? node = some (.file [])) :
    copyRounds chunk (disk.size node + 1)
        { source := .file (reading disk source node 0), target := writer, disk := opened }
      = (.ok (), opened) := by
  have hread : (Stream.file (reading disk source node 0)).read opened chunk
      = (.ok [], .file (reading disk source node 0)) := by
    by_cases hchunk : chunk = 0
    · subst hchunk
      rfl
    · simp only [Stream.read, FileStream.read, reading, if_neg hchunk,
        Disk.readAt_of_file hempty, List.drop_nil, List.take_nil]
      rfl
  rw [copyRounds]
  split
  · rfl
  · rw [hread]

/-- A file that is at the target has been emptied when the first byte is to be read. -/
theorem receives_own_file {node : NodeId} (halike : Disk.Alike disk unlocked)
    (htarget : server.openStream unlocked target .write false = .ok (writer, opened))
    (hdata : disk.content? node = some (.file data))
    (hsame : disk.locate target.nativePath = .ok node)
    (hcopy : copyRounds chunk (disk.size node + 1)
        { source := .file (reading disk source node 0), target := writer, disk := opened }
      = (.ok (), later)) :
    server.Receives disk later target [] := by
  rcases keeps_nothing_or_file halike htarget with hnothing | ⟨place, rfl, hemptied, hfile⟩
  · obtain ⟨_, _, hfilled⟩ := copyRounds_fills (.ofOpen htarget) hcopy
    exact hnothing _ _ _ hfilled []
  · obtain rfl : place = node := hemptied.eq_of_located (by rw [halike.content, hdata])
      (by rw [halike.locate, hsame])
    rw [copyRounds_emptied hfile.content] at hcopy
    obtain rfl := congrArg Prod.snd hcopy
    exact receives_of_filled halike htarget (.ofOpen htarget)

/-- What is no file has nothing to move. From a directory a copy fails. -/
theorem receives_other {node : NodeId} (halike : Disk.Alike disk unlocked)
    (htarget : server.openStream unlocked target .write false = .ok (writer, opened))
    (hnode : disk.isFile node = false) (hchunk : chunk ≠ 0)
    (hcopy : copyRounds chunk (disk.size node + 1)
        { source := .file (reading disk source node 0), target := writer, disk := opened }
      = (.ok (), later)) :
    disk.size node = 0 ∧ server.Receives disk later target [] := by
  cases hdir : disk.isDirectory node with
  | true =>
    have hstill : opened.isDirectory node = true := by
      rw [← halike.isDirectory] at hdir
      rcases openStream_write_cases htarget with ⟨_, rfl, _⟩ | ⟨_, _, _, hemptied⟩
      · exact hdir
      · exact hemptied.isDirectory hdir
    rw [copyRounds_directory hchunk hdir hstill] at hcopy
    cases hcopy
  | false =>
    have hsize := Disk.size_of_device hnode hdir
    have hend : (Stream.file (reading disk source node 0)).atEnd = true :=
      decide_eq_true (Nat.le_of_eq hsize)
    exact ⟨hsize, receives_nothing halike htarget hend hcopy⟩

/-- What an entry hands out at once is what moves, if the copy comes to its end. -/
theorem receives_entry {archive : Archive} {inner : String} {password : Option String}
    {entry : EntryReader} (halike : Disk.Alike disk unlocked)
    (htarget : server.openStream unlocked target .write false = .ok (writer, opened))
    (hopen : archive.openEntry disk inner password = .ok entry)
    (helsewhere : ∀ node size, archive.data = .mapped node size →
      disk.isFile node = true ∧ disk.locate target.nativePath ≠ .ok node) (hchunk : 0 < chunk)
    (hcopy : copyRounds chunk (entry.size + 1)
        { source := .entry { uri := source, reader := some entry, size := entry.size }
          target := writer, disk := opened }
      = (.ok (), later)) :
    ∃ data, (entry.fill disk entry.size).1 = .ok data ∧
      server.Receives disk later target data := by
  obtain ⟨hhonest, hpassed⟩ := Archive.fresh_of_openEntry hopen
  -- the container is a file elsewhere, so the entry reads the same bytes throughout
  have hsame : ∀ written last disk', Filled opened writer written last disk' →
      entry.source.SameOn disk' disk := by
    intro written last disk' hfilled
    refine Archive.sameOn_of_openEntry (ArchiveData.bytes_congr fun node size hdata => ?_) hopen
    obtain ⟨hfile, hplace⟩ := helsewhere node size hdata
    obtain ⟨data, hcontent⟩ := Disk.isFile_iff.1 hfile
    rw [others_of_filled halike htarget hfilled hcontent hplace, hcontent]
  obtain ⟨data, last, hpulled, hfilled⟩ :=
    copyRounds_pulls rfl hhonest hsame (.ofOpen htarget) hchunk (by omega) hcopy
  obtain ⟨_, hwhole⟩ := hpulled.whole hhonest hpassed
  exact ⟨data, by rw [hwhole], receives_of_filled halike htarget hfilled⟩

/-! ## Every copy -/

theorem readsTarget_of_file {node : NodeId}
    (hstream : server.streamFor source true = .ok (.file { uri := server.target source true }))
    (hlocate : disk.locate (server.target source true).nativePath = .ok node) :
    server.readsTarget disk source target = true ↔ disk.locate target.nativePath = .ok node := by
  simp only [readsTarget, hstream, hlocate]
  cases disk.locate target.nativePath with
  | error fault => simp
  | ok other => simp [eq_comm]

/-- Moving that succeeds has moved what a read of the source at once gives, or the source has been
emptied. -/
theorem readable_receives (hmaps : server.MapsFiles disk)
    (hspares : server.SparesContainer disk source target) (halike : Disk.Alike disk unlocked)
    (htarget : server.openStream unlocked target .write false = .ok (writer, opened))
    (hreader : server.Readable disk source reader) (hchunk : 0 < chunk)
    (hcopy : copyRounds chunk (reader.size + 1)
        { source := reader, target := writer, disk := opened }
      = (.ok (), later)) :
    ∃ data, (reader.read disk reader.size).1 = .ok data ∧
      server.Receives disk later target
        (if server.readsTarget disk source target then [] else data) := by
  cases hreader with
  | memory =>
    refine ⟨[], rfl, ?_⟩
    rw [ite_self]
    exact receives_nothing halike htarget rfl hcopy
  | @file node hstream hlocate =>
    -- what opens need not be a file
    cases hnode : disk.isFile node with
    | true =>
      obtain ⟨data, hdata⟩ := Disk.isFile_iff.1 hnode
      have hwhole : (Stream.file (reading disk (server.target source true) node 0)).Delivers
          (· = disk) data 0 := by
        rw [reading, Disk.size_of_file hdata]
        exact .file _ node .read none rfl (fun _ hsame => hsame ▸ hdata) (Nat.zero_le _)
      refine ⟨data, hwhole.read_whole rfl, ?_⟩
      by_cases hown : server.readsTarget disk source target = true
      · rw [if_pos hown]
        exact receives_own_file halike htarget hdata
          ((readsTarget_of_file hstream hlocate).1 hown) hcopy
      · rw [if_neg hown]
        exact receives_file halike htarget hdata
          (fun hsame => hown ((readsTarget_of_file hstream hlocate).2 hsame)) hchunk hcopy
    | false =>
      obtain ⟨hsize, hreceives⟩ :=
        receives_other halike htarget hnode (Nat.ne_of_gt hchunk) hcopy
      refine ⟨[], ?_, ?_⟩
      · show ((Stream.file (reading disk _ node 0)).read disk (disk.size node)).1 = _
        rw [hsize]
        rfl
      · rw [ite_self]
        exact hreceives
  | @entry archive inner password entry hstream hfound hopen =>
    have hnever : server.readsTarget disk source target = false := by
      rw [readsTarget, hstream]
    have helsewhere : ∀ node size, archive.data = .mapped node size →
        disk.isFile node = true ∧ disk.locate target.nativePath ≠ .ok node := by
      intro node size hdata
      obtain ⟨hfile, hlies⟩ := hmaps.liesIn hfound hdata
      exact ⟨hfile, hspares _ node hstream hlies⟩
    obtain ⟨data, hdata, hreceives⟩ :=
      receives_entry halike htarget hopen helsewhere hchunk hcopy
    refine ⟨data, ?_, ?_⟩
    · show (entry.fill disk entry.size).1.mapError Error.transfer = .ok data
      rw [hdata]
      rfl
    · rw [hnever]
      exact hreceives

/-- So has a copy that succeeds. -/
theorem copyTo_receives (hmaps : server.MapsFiles disk)
    (hspares : server.SparesContainer disk source target)
    (hbuffer : 0 < server.settings.copyBufferSize.toNat)
    (hcopy : server.copyTo disk source target = (.ok (), later)) :
    ∃ reader data, server.openStream disk source .read true = .ok (reader, disk) ∧
      (reader.read disk reader.size).1 = .ok data ∧
      server.Receives disk later target
        (if server.readsTarget disk source target then [] else data) := by
  have hcourse := server.copyTo_course disk source target
  rw [hcopy] at hcourse
  generalize houtcome : ((.ok (), later) : Except Error Unit × Disk) = outcome at hcourse
  cases hcourse with
  | noSource => cases houtcome
  | noTarget => cases houtcome
  | @moves unlocked opened reader writer hunlocked hsource htarget =>
    have halike := hunlocked.alike
    have hreader : server.openStream disk source .read true = .ok (reader, disk) := by
      rw [openStream_alike halike] at hsource
      obtain ⟨⟨found, left⟩, hfound, heq⟩ := Outcome.map_eq_ok.1 hsource
      obtain rfl := openStream_read hfound
      obtain ⟨rfl, _⟩ := Prod.mk.inj heq
      exact hfound
    obtain ⟨data, hdata, hreceives⟩ := readable_receives hmaps hspares halike htarget
      (readable_of_openStream hreader) hbuffer houtcome.symm
    exact ⟨reader, data, hreader, hdata, hreceives⟩

/-- At every point of a history whose files are files still, a copy that succeeds leaves what a
read of the source would have given before, in the file that the target leads to. Where the
source itself is read from that file, it leaves nothing. -/
theorem copy_contents {settings : Settings} {environment : Environment}
    {equipment : Equipment} {first : Server}
    (hbuild : build settings environment equipment = .ok first) (events : List Event)
    {disk later : Disk} {sourcePath targetPath : String} {source target : Uri}
    (hsource : (first.afterAll events).resolve sourcePath = .ok source)
    (htarget : (first.afterAll events).resolve targetPath = .ok target)
    (hstill : ∀ event ∈ events, ∀ node, event.disk.isFile node = true → disk.isFile node = true)
    (hspares : (first.afterAll events).SparesContainer disk source target)
    (hcopy : (first.afterAll events).copyFile disk sourcePath targetPath = (.ok (), later)) :
    ∃ data, (first.afterAll events).contents disk sourcePath = .ok data ∧
      (first.afterAll events).Receives disk later target
        (if (first.afterAll events).readsTarget disk source target then [] else data) := by
  have hmaps : (first.afterAll events).MapsFiles disk :=
    (mapsFiles_of_build hbuild).afterAll (sound_of_build hbuild) hstill
  rw [copyFile_eq hsource htarget] at hcopy
  obtain ⟨reader, data, hopen, hdata, hreceives⟩ :=
    copyTo_receives hmaps hspares (copyBuffer_afterAll hbuild events) hcopy
  exact ⟨data, by rw [contents_of_openStream hsource hopen, hdata], hreceives⟩

/-! ## One file -/

section OneFile

variable {readOnly : Bool}

theorem openStream_oneFile :
    smallServer.openStream (oneFileDisk data readOnly) (rootFile "/t.zip") .read true
      = .ok (.file (reading (oneFileDisk data readOnly) (rootFile "/t.zip") 1 0),
        oneFileDisk data readOnly) := by
  have hpath := (resolve_smallServer "/t.zip" (by decide)).2
  rw [openStream_smallServer "/t.zip", Disk.openToRead, hpath, (locate_oneFileDisk _ _).1]
  rfl

theorem delivers_oneFile {on : Disk → Prop}
    (hon : ∀ disk, on disk → disk.content? 1 = some (.file data)) :
    (Stream.file (reading (oneFileDisk data readOnly) (rootFile "/t.zip") 1 0)).Delivers on data
      0 :=
  .file _ 1 .read none rfl hon (Nat.zero_le _)

theorem contents_oneFile :
    smallServer.contents (oneFileDisk data readOnly) "/t.zip" = .ok data := by
  have hdelivers :
      (Stream.file (reading (oneFileDisk data readOnly) (rootFile "/t.zip") 1 0)).Delivers
        (· = oneFileDisk data readOnly) data 0 := delivers_oneFile (by rintro _ rfl; rfl)
  rw [contents_of_openStream (resolve_smallServer "/t.zip" (by decide)).1 openStream_oneFile]
  exact hdelivers.read_whole rfl

/-- No archive has anything to do with a copy of the file. -/
theorem spares_oneFile (target : Uri) :
    smallServer.SparesContainer (oneFileDisk data readOnly) (rootFile "/t.zip") target := by
  intro stream node hstream
  rw [streamFor_unhidden (by decide) rfl rfl] at hstream
  cases hstream

theorem readsTarget_oneFile {target : Uri} :
    smallServer.readsTarget (oneFileDisk data readOnly) (rootFile "/t.zip") target = true ↔
      (oneFileDisk data readOnly).locate target.nativePath = .ok 1 := by
  have hsame : smallServer.target (rootFile "/t.zip") true = rootFile "/t.zip" := rfl
  have hpath := (resolve_smallServer "/t.zip" (by decide)).2
  refine readsTarget_of_file ?_ ?_
  · rw [hsame]
    exact streamFor_unhidden (by decide) rfl rfl
  · rw [hsame, hpath, (locate_oneFileDisk _ _).1]

end OneFile

/-- The copy of a file to a place where there is none. -/
theorem copy_contents_small :
    smallServer.contents (oneFileDisk [107] false) "/t.zip" = .ok [107] ∧
    ∃ later, smallServer.copyFile (oneFileDisk [107] false) "/t.zip" "/k" = (.ok (), later) ∧
      ∃ node, later.locate "/k" = .ok node ∧ later.content? node = some (.file [107]) := by
  have hsource := resolve_smallServer "/t.zip" (by decide)
  have htarget := resolve_smallServer "/k" (by decide)
  obtain ⟨_, hmissing, hvacant⟩ := locate_oneFileDisk [107] false
  have hbuild : build {} smallServer.environment { standardAssigns := false } = .ok smallServer :=
    rfl
  obtain ⟨opened, hopen, hfile⟩ := Disk.openNode_write_of_vacancy hvacant rfl
  have hunlock : unlockTarget (oneFileDisk [107] false) (rootFile "/k")
      = .ok (oneFileDisk [107] false) := by
    rw [unlockTarget, htarget.2, Disk.fileExists, hmissing]
    rfl
  have hcopy : smallServer.copyFile (oneFileDisk [107] false) "/t.zip" "/k"
      = (.ok (), opened.setBytes 2 [107]) := by
    rw [copyFile_eq hsource.1 htarget.1]
    refine copyTo_delivers (by decide) hunlock (.refl _) openStream_oneFile
      (delivers_oneFile fun _ hsame => hsame) (by decide +kernel) (by rw [htarget.2]; exact hopen)
      (Disk.isFile_iff.2 ⟨[], hfile.content⟩) fun written => ?_
    rw [Disk.setBytes_other (by decide)]
    exact (Disk.openNode_write_cases hopen).others (by decide) rfl
  have hspares : smallServer.SparesContainer (oneFileDisk [107] false) (rootFile "/t.zip")
      (rootFile "/k") := spares_oneFile _
  obtain ⟨data, hdata, hreceives⟩ := copy_contents hbuild [] hsource.1 htarget.1
    (List.forall_mem_nil _) hspares hcopy
  obtain rfl : [107] = data := Except.ok.inj (contents_oneFile.symm.trans hdata)
  refine ⟨contents_oneFile, _, hcopy, ?_⟩
  rcases hreceives with hkind | ⟨node, hthere, ⟨hdevice, _⟩ | hcontent⟩
  · exact absurd hkind (by decide +kernel)
  · rw [htarget.2, hmissing] at hdevice
    cases hdevice
  · have hother : ¬smallServer.readsTarget (oneFileDisk [107] false) (rootFile "/t.zip")
        (rootFile "/k") = true := by
      rw [readsTarget_oneFile, htarget.2, hmissing]
      intro hsame
      cases hsame
    rw [htarget.2] at hthere
    exact ⟨node, hthere, hcontent.trans (by
      rw [show smallServer.afterAll [] = smallServer from rfl, if_neg hother])⟩

/-- A file that is copied onto itself is empty afterwards, though the copy succeeds. -/
theorem copy_onto_itself :
    smallServer.resolve "/t.zip" = .ok (rootFile "/t.zip") ∧
    smallServer.contents (oneFileDisk [107] false) "/t.zip" = .ok [107] ∧
    ∃ later, smallServer.copyFile (oneFileDisk [107] false) "/t.zip" "/t.zip" = (.ok (), later) ∧
      later.locate "/t.zip" = .ok 1 ∧ later.content? 1 = some (.file []) := by
  have hresolve := resolve_smallServer "/t.zip" (by decide)
  obtain ⟨hlocate, _⟩ := locate_oneFileDisk [107] false
  have hfile : (oneFileDisk [107] false).HasFile "/t.zip" 1 [107] := ⟨hlocate, rfl, rfl⟩
  have hempty := hfile.setBytes []
  have hunlock : unlockTarget (oneFileDisk [107] false) (rootFile "/t.zip")
      = .ok (oneFileDisk [107] false) := by
    rw [unlockTarget, hresolve.2, Disk.isReadOnly, hlocate, Disk.fileExists, hlocate]
    rfl
  have hwriter : smallServer.openStream (oneFileDisk [107] false) (rootFile "/t.zip") .write false
      = .ok (.file (.writing (rootFile "/t.zip") 1 0), (oneFileDisk [107] false).setBytes 1 []) :=
    openStream_write (by decide +kernel) (by rw [hresolve.2]; exact hfile.openNode_write)
  refine ⟨hresolve.1, contents_oneFile, _, ?_, hempty.located, hempty.content⟩
  rw [copyFile_eq hresolve.1 hresolve.1, copyTo, hunlock]
  simp only [openStream_oneFile, hwriter]
  show copyRounds _ ((oneFileDisk [107] false).size 1 + 1) _ = _
  exact copyRounds_emptied hempty.content

end ArchiveVfs.Server
