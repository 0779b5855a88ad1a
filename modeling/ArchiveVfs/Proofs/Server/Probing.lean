import ArchiveVfs.Proofs.Server.DiskReading
import ArchiveVfs.Proofs.Server.Histories
import ArchiveVfs.Proofs.Server.Precedence

/-!
# What exists can be opened

Asking whether a file is there and opening its stream take different ways: one looks
into the archives and at the disk, the other goes by the URI of an entry to the
stream and from there back to an archive. `exists_iff_open` says that they
agree: what does not exist cannot be opened, and what exists opens unless the data of
the entry themselves are at fault (`blamesData`).
-/

namespace ArchiveVfs

/-! ## Faults of an entry's own data -/

/-- Whether an error blames the data of an entry: how they are packed, encrypted or placed. -/
def Error.blamesData : Error → Bool
  | .invalidData _ | .container _ | .transfer _ => true
  | _ => false

namespace Zip

theorem decodeWhole_error {method : Method} {packed : Bytes} {error : Error}
    (h : decodeWhole method packed = .error error) : error.blamesData = true := by
  cases method with
  | stored => cases h
  | deflated =>
    rw [decodeWhole] at h
    cases hfault : (Deflate.inflate packed).fault with
    | none =>
      simp only [hfault] at h
      cases h
    | some fault =>
      simp only [hfault] at h
      cases fault <;> (cases h; rfl)
  | other number =>
    cases h
    rfl

theorem contents_error {item : Item} {data password : Bytes} {error : Error}
    (h : item.contents data password = .error error) : error.blamesData = true := by
  rw [Item.contents] at h
  cases hmethod : item.method with
  | other number =>
    rw [hmethod] at h
    cases h
    rfl
  | _ =>
    rw [hmethod] at h
    rcases Outcome.bind_eq_error.1 h with h | ⟨plain, _, h⟩
    · obtain ⟨fault, _, rfl⟩ := Outcome.mapError_eq_error.1 h
      rfl
    · rcases Outcome.bind_eq_error.1 h with h | ⟨contents, _, h⟩
      · exact decodeWhole_error h
      · by_cases hsum : Checksum.ofBytes contents = item.checksum
        · rw [if_pos hsum] at h
          cases h
        · rw [if_neg hsum] at h
          cases h
          rfl

/-- What keeps an encrypted entry from being unpacked lies in its data. -/
theorem unpack_error {data : Bytes} {name : String} {password : Bytes} {error : Error}
    (h : unpack data name password = .error error) : error.blamesData = true := by
  rcases Outcome.bind_eq_error.1 h with h | ⟨item, _, h⟩
  · obtain ⟨fault, _, rfl⟩ := Outcome.mapError_eq_error.1 h
    rfl
  · exact contents_error h

end Zip

namespace Archive

variable {archive : Archive} {disk : Disk} {path : String} {password : Option String}

/-- What keeps an entry that is there from being opened lies in its data. -/
theorem openEntry_error {error : Error} (hthere : (archive.file? path).isSome = true)
    (h : archive.openEntry disk path password = .error error) : error.blamesData = true := by
  obtain ⟨entry, hfile⟩ := Option.isSome_iff_exists.1 hthere
  simp only [openEntry, hfile] at h
  cases hsealed : entry.encrypted with
  | true =>
    simp only [hsealed, if_true] at h
    cases password with
    | none =>
      cases h
      rfl
    | some password =>
      rcases Outcome.bind_eq_error.1 h with h | ⟨contents, _, h⟩
      · exact Zip.unpack_error h
      · cases h
  | false =>
    simp only [hsealed] at h
    by_cases hshort : archive.data.size < entry.dataStart + entry.packedSize
    · simp only [if_pos hshort] at h
      cases h
      rfl
    · simp only [if_neg hshort] at h
      cases hmethod : entry.method with
      | other number =>
        rw [hmethod] at h
        cases h
        rfl
      | _ =>
        rw [hmethod] at h
        cases h

/-- An entry that is not there cannot be opened. -/
theorem openEntry_missing (hmissing : archive.file? path = none) :
    archive.openEntry disk path password = .error (.notFound (archive.entryUri path)) := by
  rw [openEntry, hmissing]
  rfl

end Archive

namespace EntryStream

/-! ## Opening a new stream -/

variable {uri : Uri} {name : String} {mounts : Mounts} {disk : Disk}

/-- A URI that names no entry cannot be opened. -/
theorem tryOpen_unnamed (hname : uri.queryValue Uri.entryKey = none) :
    ({ uri } : EntryStream).tryOpen mounts disk = .error (.invalidUri (.noEntry uri)) := by
  simp only [tryOpen, entryPath?, hname]
  rfl

/-- Nor can one whose entry has an empty name. -/
theorem tryOpen_emptyName (hname : uri.queryValue Uri.entryKey = some name)
    (hempty : EntryPath.normal name = "") :
    ({ uri } : EntryStream).tryOpen mounts disk = .error (.invalidUri (.noEntry uri)) := by
  simp only [tryOpen, entryPath?, hname, Option.map_some, hempty]
  rfl

/-- Otherwise the stream opens what its archive opens. -/
theorem tryOpen_named (hname : uri.queryValue Uri.entryKey = some name)
    (hsome : EntryPath.normal name ≠ "") :
    ({ uri } : EntryStream).tryOpen mounts disk
      = (do
          let archive ← mounts.findOrLoad disk uri.archiveFile
          (archive.openEntry disk (EntryPath.normal name) (uri.queryValue Uri.passwordKey)).map
            fun reader => { uri, reader := some reader, size := reader.size }) := by
  have hpath : (EntryPath.normal name).toList.isEmpty = false :=
    List.isEmpty_eq_false_iff.2 fun hnil => hsome (String.toList_inj.1 hnil)
  simp only [tryOpen, entryPath?, hname, Option.map_some, Option.filter_some, hpath,
    Bool.not_false, if_true]
  rfl

/-- All that opening a stream over an entry does when it succeeds. -/
theorem tryOpen_eq_ok {stream next : EntryStream} (h : stream.tryOpen mounts disk = .ok next) :
    ∃ path archive reader, entryPath? stream.uri = some path ∧
      mounts.findOrLoad disk stream.uri.archiveFile = .ok archive ∧
      archive.openEntry disk path (stream.uri.queryValue Uri.passwordKey) = .ok reader ∧
      next = { stream with reader := some reader, size := reader.size } := by
  rw [tryOpen] at h
  split at h
  · cases h
  · split at h
    · cases h
    · split at h
      next => cases h
      next path hpath =>
        obtain ⟨archive, hfound, h⟩ := Outcome.bind_eq_ok.1 h
        obtain ⟨reader, hopen, h⟩ := Outcome.bind_eq_ok.1 h
        exact ⟨path, archive, reader, hpath, hfound, hopen, (Except.ok.inj h).symm⟩

end EntryStream

namespace Server

/-! ## Opening a path -/

/-- What opening the stream of a path for reading gives. -/
def openPath (server : Server) (disk : Disk) (path : String) :
    Except Error (Stream × Disk) := do
  ((← server.createStream path).setMode .read).tryOpen server.mounts disk

/-- The standard schemes have the standard kinds of streams, and archives are mounted from
plain URIs. -/
structure Standard (server : Server) : Prop where
  fileKind : server.schemes.kindOf Uri.fileScheme = .ok .file
  entryKind : server.schemes.kindOf Uri.archiveScheme = .ok .entry
  plain : ∀ archive ∈ server.mounts.archives,
    archive.uri.query = [] ∧ archive.uri.fragment = none

/-- The probe of a path agrees with opening it. -/
def ProbeAgrees (server : Server) (disk : Disk) (path : String) : Prop :=
  (server.fileExists disk path = false → ∃ error, server.openPath disk path = .error error) ∧
  (server.fileExists disk path = true →
    (∃ stream, server.openPath disk path = .ok (stream, disk)) ∨
    ∃ error, server.openPath disk path = .error error ∧ error.blamesData = true)

variable {server : Server} {disk : Disk} {path : String} {uri : Uri}

theorem openPath_eq (hresolve : server.resolve path = .ok uri) :
    server.openPath disk path = server.openStream disk uri .read true := by
  rw [openPath, createStream, hresolve, Outcome.ok_bind]
  rfl

theorem fileExists_eq (hresolve : server.resolve path = .ok uri) :
    server.fileExists disk path = server.fileAt disk uri := by
  rw [fileExists, hresolve]

/-- What opening an entry gives, when the entry is there. -/
theorem probeAgrees_of_entry {archive : Archive} {inner : String} {password : Option String}
    {stream : EntryReader → Stream} (hresolve : server.resolve path = .ok uri)
    (hthere : (archive.file? inner).isSome = true) (hprobe : server.fileAt disk uri = true)
    (hopen : server.openStream disk uri .read true
      = (archive.openEntry disk inner password).map fun reader => (stream reader, disk)) :
    server.ProbeAgrees disk path := by
  rw [ProbeAgrees, fileExists_eq hresolve, openPath_eq hresolve, hprobe, hopen]
  refine ⟨nofun, fun _ => ?_⟩
  cases hentry : archive.openEntry disk inner password with
  | ok reader => exact .inl ⟨stream reader, rfl⟩
  | error error => exact .inr ⟨error, rfl, Archive.openEntry_error hthere hentry⟩

/-- What exists and opens agrees. -/
theorem probeAgrees_of_opened {stream : Stream} (hresolve : server.resolve path = .ok uri)
    (hprobe : server.fileAt disk uri = true)
    (hopen : server.openStream disk uri .read true = .ok (stream, disk)) :
    server.ProbeAgrees disk path := by
  rw [ProbeAgrees, fileExists_eq hresolve, openPath_eq hresolve, hprobe, hopen]
  exact ⟨nofun, fun _ => .inl ⟨stream, rfl⟩⟩

/-- What does not exist and does not open agrees. -/
theorem probeAgrees_of_missing {error : Error} (hresolve : server.resolve path = .ok uri)
    (hprobe : server.fileAt disk uri = false)
    (hopen : server.openStream disk uri .read true = .error error) :
    server.ProbeAgrees disk path := by
  rw [ProbeAgrees, fileExists_eq hresolve, openPath_eq hresolve, hprobe, hopen]
  exact ⟨fun _ => ⟨error, rfl⟩, nofun⟩

/-! ## Files -/

/-- An archive that a look-up finds is a mounted one that has the file. -/
theorem of_fileArchive? {archive : Archive} {inner : String}
    (h : server.fileArchive? uri = some (archive, inner)) :
    server.archivesEnabled = true ∧ uri.isFile = true ∧ archive ∈ server.mounts.archives ∧
      archive.Holds uri.localPath inner := by
  rw [fileArchive?] at h
  split at h
  next henabled => exact ⟨henabled, Mounts.of_findWith h⟩
  next => cases h

/-- A file that an archive hides is there, and opening it opens the entry. -/
theorem Sound.probe_hidden (h : server.Sound) (hstandard : server.Standard) (disk : Disk)
    (hresolve : server.resolve path = .ok uri) {archive : Archive} {inner : String}
    (hfound : server.fileArchive? uri = some (archive, inner)) :
    server.ProbeAgrees disk path := by
  obtain ⟨henabled, hfile, hin, hholds⟩ := of_fileArchive? hfound
  obtain ⟨hquery, hfragment⟩ := hstandard.plain archive hin
  have hready : server.Ready :=
    ⟨henabled, hstandard.fileKind, hstandard.entryKind, hstandard.plain⟩
  have hsome : inner ≠ "" := by
    rintro rfl
    have hthere := hholds.2
    rw [h.mounts.named archive hin] at hthere
    cases hthere
  have hopen := EntryStream.tryOpen_mounted disk h.mounts.toOrderly hin
    (h.mounts.files archive hin) hquery hfragment (Archive.normal_of_innerPath hholds.1) hsome
  refine probeAgrees_of_entry hresolve hholds.2 ?_
    (openStream_of_entry (streamFor_entry hready hfound) hopen)
  rw [fileAt, hfound]
  rfl

/-- The stream of a file that no archive hides is that over the file. -/
theorem streamFor_unhidden (hkind : server.schemes.kindOf Uri.fileScheme = .ok .file)
    (hfile : uri.isFile = true) (hnone : server.fileArchive? uri = none) :
    server.streamFor uri true = .ok (.file { uri }) := by
  have htarget : server.target uri true = uri := by
    rw [fileArchive?] at hnone
    rw [target, Bool.true_and]
    split
    next henabled =>
      rw [if_pos henabled] at hnone
      rw [Mounts.redirect, hnone]
    next => rfl
  have hscheme : uri.scheme = Uri.fileScheme := of_decide_eq_true hfile
  rw [streamFor, htarget, hscheme, hkind]
  rfl

/-- Where no archive hides the file, there is the disk: what is there is a file, and can be
opened. -/
theorem probe_unhidden (hstandard : server.Standard) (hresolve : server.resolve path = .ok uri)
    (hfile : uri.isFile = true) (hnone : server.fileArchive? uri = none)
    (hregular : ∀ node, disk.locate uri.nativePath = .ok node → disk.isFile node = true) :
    server.ProbeAgrees disk path := by
  have hprobe : server.fileAt disk uri = disk.fileExists uri.nativePath := by
    rw [fileAt, hnone, if_pos hfile]
    rfl
  have hopen : server.openStream disk uri .read true = _ :=
    openStream_of_file (streamFor_unhidden hstandard.fileKind hfile hnone)
  rw [Disk.fileExists] at hprobe
  rw [Disk.openToRead] at hopen
  cases hlocate : disk.locate uri.nativePath with
  | error fault =>
    rw [hlocate] at hprobe hopen
    exact probeAgrees_of_missing hresolve hprobe hopen
  | ok node =>
    have hnode := hregular node hlocate
    rw [hlocate] at hprobe hopen
    exact probeAgrees_of_opened hresolve (hprobe.trans hnode) hopen

/-! ## Entries -/

/-- No archive, whether it is mounted or opened for once, has a file with the empty path. -/
theorem Sound.file?_empty_of_findOrLoad (h : server.Sound) {archive : Archive}
    (hfound : server.mounts.findOrLoad disk uri = .ok archive) : archive.file? "" = none := by
  rw [Mounts.findOrLoad] at hfound
  split at hfound
  next other hfind =>
    obtain rfl := Except.ok.inj hfound
    exact h.mounts.named other (List.mem_of_find?_eq_some hfind)
  next => exact Archive.file?_empty_of_load hfound

/-- Entries are not looked for in other archives. -/
theorem findWithFile_of_isEntry (mounts : Mounts) (hentry : uri.isEntry = true) :
    uri.isFile = false ∧ mounts.findWithFile uri = none := by
  have hscheme : uri.scheme = Uri.archiveScheme := of_decide_eq_true hentry
  have hnofile : uri.isFile = false := by
    rw [Uri.isFile, hscheme]
    decide
  rw [Mounts.findWithFile, Mounts.findWith, hnofile]
  exact ⟨rfl, rfl⟩

/-- The stream of an entry is that over the entry. -/
theorem streamFor_of_isEntry (hkind : server.schemes.kindOf Uri.archiveScheme = .ok .entry)
    (hentry : uri.isEntry = true) : server.streamFor uri true = .ok (.entry { uri }) := by
  have hscheme : uri.scheme = Uri.archiveScheme := of_decide_eq_true hentry
  have htarget : server.target uri true = uri := by
    rw [target, Mounts.redirect, (findWithFile_of_isEntry server.mounts hentry).2]
    exact ite_self uri
  rw [streamFor, htarget, hscheme, hkind]
  rfl

/-- The probe of an entry looks for what its stream would open. -/
theorem Sound.probe_isEntry (h : server.Sound)
    (hkind : server.schemes.kindOf Uri.archiveScheme = .ok .entry) (disk : Disk)
    (hresolve : server.resolve path = .ok uri) (hentry : uri.isEntry = true) :
    server.ProbeAgrees disk path := by
  obtain ⟨hnofile, hmissing⟩ := findWithFile_of_isEntry server.mounts hentry
  have hnone : server.fileArchive? uri = none := by
    rw [fileArchive?, hmissing, ite_self]
  have hprobe : server.fileAt disk uri = server.entryExists disk uri := by
    rw [fileAt, hnone, hnofile, hentry]
    rfl
  have hopen : server.openStream disk uri .read true
      = (({ uri } : EntryStream).tryOpen server.mounts disk).map
        fun stream => (.entry stream, disk) := by
    rw [openStream, streamFor_of_isEntry hkind hentry]
    rfl
  rw [entryExists] at hprobe
  cases hname : uri.queryValue Uri.entryKey with
  | none =>
    rw [hname] at hprobe
    rw [EntryStream.tryOpen_unnamed hname] at hopen
    exact probeAgrees_of_missing hresolve hprobe hopen
  | some name =>
    simp only [hname] at hprobe
    by_cases hempty : EntryPath.normal name = ""
    · -- the stream refuses the empty path, and no archive has it
      rw [EntryStream.tryOpen_emptyName hname hempty] at hopen
      refine probeAgrees_of_missing hresolve ?_ hopen
      cases hfound : server.mounts.findOrLoad disk uri.archiveFile with
      | error error => rw [hprobe, hfound]
      | ok archive =>
        rw [hprobe, hfound, hempty]
        simp only [h.file?_empty_of_findOrLoad hfound]
        rfl
    · rw [EntryStream.tryOpen_named hname hempty] at hopen
      cases hfound : server.mounts.findOrLoad disk uri.archiveFile with
      | error error =>
        rw [hfound] at hprobe hopen
        exact probeAgrees_of_missing hresolve hprobe hopen
      | ok archive =>
        simp only [hfound, Outcome.ok_bind] at hprobe hopen
        cases hthere : archive.file? (EntryPath.normal name) with
        | none =>
          rw [hthere] at hprobe
          rw [Archive.openEntry_missing hthere] at hopen
          exact probeAgrees_of_missing hresolve hprobe hopen
        | some entry =>
          have hsome : (archive.file? (EntryPath.normal name)).isSome = true := by
            rw [hthere]
            rfl
          exact probeAgrees_of_entry hresolve hsome (hprobe.trans hsome)
            (hopen.trans (Functor.map_map (f := Except _) _ _ _))

theorem Sound.probe_entry (h : server.Sound) (hstandard : server.Standard) (disk : Disk)
    (hresolve : server.resolve path = .ok uri) (hentry : uri.isEntry = true) :
    server.ProbeAgrees disk path :=
  h.probe_isEntry hstandard.entryKind disk hresolve hentry

/-! ## Every server -/

/-- At every point of a history, for a path that leads to a regular file or to nothing on
the disk, or to an entry: what does not exist cannot be opened, and what exists opens
unless the data of the entry are at fault. -/
theorem exists_iff_open {settings : Settings} {environment : Environment}
    {equipment : Equipment} {first : Server}
    (hbuild : build settings environment equipment = .ok first) (events : List Event)
    (hstandard : (first.afterAll events).Standard) (disk : Disk) {path : String} {uri : Uri}
    (hresolve : (first.afterAll events).resolve path = .ok uri)
    (hscheme : uri.isFile = true ∨ uri.isEntry = true)
    (hregular : uri.isFile = true →
      ∀ node, disk.locate uri.nativePath = .ok node → disk.isFile node = true) :
    ((first.afterAll events).fileExists disk path = false →
      ∃ error, (first.afterAll events).openPath disk path = .error error) ∧
    ((first.afterAll events).fileExists disk path = true →
      (∃ stream, (first.afterAll events).openPath disk path = .ok (stream, disk)) ∨
      ∃ error, (first.afterAll events).openPath disk path = .error error ∧
        error.blamesData = true) := by
  have hsound : (first.afterAll events).Sound := (sound_of_build hbuild).afterAll events
  rcases hscheme with hfile | hentry
  · cases hfound : (first.afterAll events).fileArchive? uri with
    | some found => exact hsound.probe_hidden hstandard disk hresolve hfound
    | none => exact probe_unhidden hstandard hresolve hfile hfound (hregular hfile)
  · exact hsound.probe_entry hstandard disk hresolve hentry

theorem standard_small : (smallServer.afterAll [.call mounting]).Standard :=
  ⟨ready_small.fileKind, ready_small.entryKind, ready_small.plain⟩

/-- The entry of the container that hides no file is there, and opens. -/
theorem exists_iff_open_small :
    (smallServer.afterAll [.call mounting]).fileExists (smallDisk smallContainer) "/k" = true ∧
    ((∃ stream, (smallServer.afterAll [.call mounting]).openPath (smallDisk smallContainer) "/k"
        = .ok (stream, smallDisk smallContainer)) ∨
      ∃ error, (smallServer.afterAll [.call mounting]).openPath (smallDisk smallContainer) "/k"
        = .error error ∧ error.blamesData = true) := by
  have hresolve : (smallServer.afterAll [.call mounting]).resolve "/k" = .ok (rootFile "/k") :=
    resolve_small.1
  have hprobe : (smallServer.afterAll [.call mounting]).fileExists (smallDisk smallContainer) "/k"
      = true := by
    rw [fileExists_eq hresolve, show smallServer.afterAll [.call mounting] = _ from run_mounting,
      fileAt, if_pos (by decide +kernel)]
  have hvacant : (smallDisk smallContainer).locate (rootFile "/k").nativePath
      = .error .notFound := by
    have hroute : Disk.Route.ofPath (rootFile "/k").nativePath
        = .ok { fromRoot := true, names := ["k"], slashed := false } := by decide +kernel
    have hname : (Table.empty.insert "t.zip" 1).get? "k" = none := by decide
    exact Disk.locate_vacant hroute rfl (by decide +kernel) hname
  refine ⟨hprobe, (exists_iff_open (show build {} smallServer.environment
    { standardAssigns := false } = .ok smallServer from rfl) [.call mounting] standard_small
    (smallDisk smallContainer) hresolve (.inl rfl) ?_).2 hprobe⟩
  intro _ node hnode
  rw [hvacant] at hnode
  cases hnode

/-- A disk with a device in a directory. -/
def nullDisk : Disk where
  nodes := #[{ content := .directory (Table.empty.insert "dev" 1) Disk.root },
    { content := .directory (Table.empty.insert "null" 2) Disk.root },
    { content := .device .null }]

theorem locate_nullDisk : nullDisk.locate "/dev/null" = .ok 2 := by
  have hroute : Disk.Route.ofPath "/dev/null"
      = .ok { fromRoot := true, names := ["dev", "null"], slashed := false } := by decide
  have hdir : (Table.empty.insert "dev" 1).get? "dev" = some 1 := by decide
  have hdevice : (Table.empty.insert "null" 2).get? "null" = some 2 := by decide
  have hwalk : nullDisk.walk .follow Disk.maxLinks Disk.root ["dev", "null"] = .ok (.node 2) := by
    rw [Disk.walk_name ["null"] rfl (by decide) hdir rfl (by nofun),
      Disk.walk_name [] rfl (by decide) hdevice rfl (by nofun), Disk.walk]
  exact Disk.locate_of_walk hroute hwalk

/-- A device is neither a file nor a directory, but it can be opened. -/
theorem exists_open_device :
    build {} smallServer.environment { standardAssigns := false } = .ok smallServer ∧
    smallServer.Standard ∧
    smallServer.resolve "/dev/null" = .ok (rootFile "/dev/null") ∧
    smallServer.directoryExists nullDisk "/dev/null" = false ∧
    smallServer.fileExists nullDisk "/dev/null" = false ∧
    ∃ stream, smallServer.openPath nullDisk "/dev/null" = .ok (stream, nullDisk) := by
  have hresolve : smallServer.resolve "/dev/null" = .ok (rootFile "/dev/null") := by
    decide +kernel
  have hpath : (rootFile "/dev/null").nativePath = "/dev/null" := by decide +kernel
  have hstandard : smallServer.Standard :=
    ⟨by decide +kernel, by decide +kernel, List.forall_mem_nil _⟩
  have hstream := streamFor_unhidden hstandard.fileKind
    (show (rootFile "/dev/null").isFile = true from rfl) rfl
  refine ⟨rfl, hstandard, hresolve, ?_, ?_, ?_⟩
  · rw [directoryExists, hresolve]
    show nullDisk.directoryExists (rootFile "/dev/null").nativePath = false
    rw [hpath, Disk.directoryExists, locate_nullDisk]
    rfl
  · rw [fileExists_eq hresolve]
    show nullDisk.fileExists (rootFile "/dev/null").nativePath = false
    rw [hpath, Disk.fileExists, locate_nullDisk]
    rfl
  · rw [openPath_eq hresolve, openStream_of_file hstream, Disk.openToRead, hpath, locate_nullDisk]
    exact ⟨_, rfl⟩

end Server

end ArchiveVfs
