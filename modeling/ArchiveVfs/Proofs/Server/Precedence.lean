import ArchiveVfs.Proofs.Archive.EntryReading
import ArchiveVfs.Proofs.Disk.Walking
import ArchiveVfs.Proofs.Server.DiskReading
import ArchiveVfs.Proofs.Server.Runs

/-!
# Archives come before the disk

Where a mounted archive has the file that a path leads to, a server shows that entry of
that archive (`GivesEntry`); otherwise it shows the disk (`GivesFile`). The first archive
in the list decides, however many others have the file too, and the stream that is made
from the path leads back to it. `archive_precedence` joins this with where the archives
of a run come from.
-/

namespace ArchiveVfs.Server

/-- Archives come before the disk, the standard schemes have the standard kinds of
streams, and archives are mounted from plain URIs of files. -/
structure Ready (server : Server) : Prop where
  enabled : server.archivesEnabled = true
  fileKind : server.schemes.kindOf Uri.fileScheme = .ok .file
  entryKind : server.schemes.kindOf Uri.archiveScheme = .ok .entry
  plain : ∀ archive ∈ server.mounts.archives,
    archive.uri.query = [] ∧ archive.uri.fragment = none

/-- A path leads to an entry of an archive, whatever the disk and other archives have. -/
structure GivesEntry (server : Server) (disk : Disk) (path : String) (archive : Archive)
    (inner : String) : Prop where
  fileExists : server.fileExists disk path = true
  isReadOnly : server.isReadOnly disk path = true
  createStream : server.createStream path = .ok (.entry { uri := archive.entryUri inner })
  tryOpen : (Stream.entry { uri := archive.entryUri inner }).tryOpen server.mounts disk
    = (archive.openEntry disk inner none).map fun reader =>
      (.entry { uri := archive.entryUri inner, reader := some reader, size := reader.size }, disk)
  contents : server.contents disk path = archive.readEntry disk inner
  checksum : server.checksum disk path
    = archive.sumEntry disk inner server.settings.checksumBufferSize.toNat

/-- A path leads to a file of the disk. -/
structure GivesFile (server : Server) (disk : Disk) (path : String) (uri : Uri) : Prop where
  fileExists : server.fileExists disk path = disk.fileExists uri.nativePath
  createStream : server.createStream path = .ok (.file { uri })
  contents : server.contents disk path = disk.fileContents uri
  checksum : server.checksum disk path
    = disk.fileChecksum uri server.settings.checksumBufferSize.toNat

variable {server : Server} {disk : Disk} {path : String} {uri : Uri}

/-! ## Files that an archive hides -/

section Entries

variable {archive : Archive} {inner : String}

theorem fileArchive?_of_holds {earlier later : List Archive} (hready : server.Ready)
    (hfile : uri.isFile = true) (hlist : server.mounts.archives = earlier ++ archive :: later)
    (hearlier : ∀ other ∈ earlier, ∀ path, ¬ other.Holds uri.localPath path)
    (hholds : archive.Holds uri.localPath inner) :
    server.fileArchive? uri = some (archive, inner) := by
  rw [fileArchive?, if_pos hready.enabled]
  exact Mounts.findWithFile_eq_some hfile hlist hearlier hholds

theorem streamFor_entry (hready : server.Ready)
    (hfound : server.fileArchive? uri = some (archive, inner)) :
    server.streamFor uri true = .ok (.entry { uri := archive.entryUri inner }) := by
  rw [fileArchive?, if_pos hready.enabled] at hfound
  have htarget : server.target uri true = archive.entryUri inner := by
    rw [target, hready.enabled, Bool.and_true, if_pos rfl, Mounts.redirect, hfound]
  have hkind : server.schemes.kindOf (archive.entryUri inner).scheme = .ok .entry := by
    rw [Archive.entryUri, Uri.scheme_entryOf]
    exact hready.entryKind
  rw [streamFor, htarget, hkind]
  rfl

/-- Opening a location whose stream is that over an entry. -/
theorem openStream_of_entry
    (hstream : server.streamFor uri true = .ok (.entry { uri := archive.entryUri inner }))
    (hopen : ({ uri := archive.entryUri inner } : EntryStream).tryOpen server.mounts disk
      = (archive.openEntry disk inner none).map fun reader =>
        { uri := archive.entryUri inner, reader := some reader, size := reader.size }) :
    server.openStream disk uri .read true
      = (archive.openEntry disk inner none).map fun reader =>
        (.entry { uri := archive.entryUri inner, reader := some reader, size := reader.size },
          disk) := by
  have hclosed : (Stream.entry { uri := archive.entryUri inner }).setMode .read
      = .entry { uri := archive.entryUri inner } := rfl
  rw [openStream, hstream, Outcome.ok_bind, hclosed, Stream.tryOpen, hopen]
  cases archive.openEntry disk inner none <;> rfl

/-- The first archive that has the file hides what comes behind it. -/
theorem Sound.givesEntry {earlier later : List Archive} (disk : Disk) (h : server.Sound)
    (hready : server.Ready) (hresolve : server.resolve path = .ok uri)
    (hfile : uri.isFile = true) (hlist : server.mounts.archives = earlier ++ archive :: later)
    (hearlier : ∀ other ∈ earlier, ∀ path, ¬ other.Holds uri.localPath path)
    (hholds : archive.Holds uri.localPath inner) :
    server.GivesEntry disk path archive inner := by
  have hin : archive ∈ server.mounts.archives := by simp [hlist]
  have hfound := fileArchive?_of_holds hready hfile hlist hearlier hholds
  have hstream := streamFor_entry hready hfound
  obtain ⟨hquery, hfragment⟩ := hready.plain archive hin
  -- a stream needs an entry that is named
  have hsome : inner ≠ "" := by
    intro hempty
    have hthere := hholds.2
    rw [hempty, h.mounts.named archive hin] at hthere
    cases hthere
  have hopen := EntryStream.tryOpen_mounted disk h.mounts.toOrderly hin
    (h.mounts.files archive hin) hquery hfragment (Archive.normal_of_innerPath hholds.1) hsome
  have hopened := openStream_of_entry hstream hopen
  refine ⟨?_, ?_, ?_, ?_, ?_, ?_⟩
  · simp [Server.fileExists, hresolve, fileAt, hfound]
  · simp [Server.isReadOnly, hresolve, isSealed, archivesHold, hfound]
  · rw [Server.createStream, hresolve, Outcome.ok_bind, hstream]
  · rw [Stream.tryOpen, hopen]
    cases archive.openEntry disk inner none <;> rfl
  · rw [Server.contents, hresolve, Outcome.ok_bind, hopened, Archive.readEntry]
    cases archive.openEntry disk inner none <;> rfl
  · rw [Server.checksum, hresolve, Outcome.ok_bind, hopened, Archive.sumEntry]
    cases archive.openEntry disk inner none <;> rfl

end Entries

/-! ## Files that no archive hides -/

/-- Where no archive has the file there is the disk. -/
theorem Sound.givesFile (disk : Disk) (h : server.Sound) (hready : server.Ready)
    (hresolve : server.resolve path = .ok uri) (hfile : uri.isFile = true)
    (hnone : ∀ archive ∈ server.mounts.archives, ∀ inner, ¬ archive.Holds uri.localPath inner) :
    server.GivesFile disk path uri := by
  have hmissing := Mounts.findWithFile_eq_none hfile hnone
  have htarget : server.target uri true = uri := by
    rw [target, hready.enabled, Bool.and_true, if_pos rfl, Mounts.redirect, hmissing]
  have hscheme : uri.scheme = Uri.fileScheme := of_decide_eq_true hfile
  have hstream : server.streamFor uri true = .ok (.file { uri }) := by
    rw [streamFor, htarget, hscheme, hready.fileKind]
    rfl
  refine ⟨?_, ?_, contents_of_file hresolve hstream, checksum_of_file h.buffer hresolve hstream⟩
  · simp [Server.fileExists, hresolve, fileAt, fileArchive?, hmissing, hfile]
  · rw [Server.createStream, hresolve, Outcome.ok_bind, hstream]

/-! ## All runs -/

/-- After any run of a server, a path that leads to a file leads to the entry of the first
archive that has it, and to the disk where no archive has it. The archive is the one that
a call of the run loaded, and its entries are as they were then unless it is mapped and
its bytes on the disk have changed. -/
theorem archive_precedence {settings : Settings} {environment : Environment}
    {equipment : Equipment} {first : Server}
    (hbuild : build settings environment equipment = .ok first) (moments : List Moment)
    (hready : (first.run moments).Ready) (disk : Disk) {path : String} {uri : Uri}
    (hresolve : (first.run moments).resolve path = .ok uri) (hfile : uri.isFile = true) :
    (∀ earlier archive later inner,
      (first.run moments).mounts.archives = earlier ++ archive :: later →
      (∀ other ∈ earlier, ∀ path, ¬ other.Holds uri.localPath path) →
      archive.Holds uri.localPath inner →
      (first.run moments).GivesEntry disk path archive inner ∧
      ∃ before moment after, moments = before ++ moment :: after ∧
        MountedBy first before moment after archive ∧
        archive.openEntry disk inner none = archive.openEntry moment.disk inner none ∧
        (archive.Unchanged moment.disk disk →
          (first.run moments).contents disk path = archive.readEntry moment.disk inner ∧
          (first.run moments).checksum disk path = archive.sumEntry moment.disk inner
            (first.run moments).settings.checksumBufferSize.toNat)) ∧
    ((∀ archive ∈ (first.run moments).mounts.archives,
        ∀ inner, ¬ archive.Holds uri.localPath inner) →
      (first.run moments).GivesFile disk path uri) := by
  have hsound : (first.run moments).Sound := (sound_of_build hbuild).run moments
  refine ⟨?_, hsound.givesFile disk hready hresolve hfile⟩
  intro earlier archive later inner hlist hearlier hholds
  -- the list says which archive, the run says where it comes from
  have hgives := hsound.givesEntry disk hready hresolve hfile hlist hearlier hholds
  have hin : archive ∈ (first.run moments).mounts.archives := by simp [hlist]
  obtain ⟨before, moment, after, hsplit, hmounted⟩ := mountedBy_of_mem hbuild moments hin
  refine ⟨hgives, before, moment, after, hsplit, hmounted,
    Archive.openEntry_congr archive disk moment.disk inner, ?_⟩
  intro hsame
  constructor
  · rw [hgives.contents, Archive.readEntry_congr hsame.bytes_eq]
  · rw [hgives.checksum, Archive.sumEntry_congr hsame.bytes_eq]

/-! ## A container with one file -/

/-- A container with one stored file, `k`, whose only byte is at 31. -/
def smallContainer : Bytes :=
  [80, 75, 3, 4, 10, 0, 0, 0, 0, 0, 0, 0, 33, 0, 93, 87, 98, 8, 1, 0, 0, 0, 1, 0, 0, 0, 1, 0,
    0, 0, 107, 107,
    80, 75, 1, 2, 20, 0, 10, 0, 0, 0, 0, 0, 0, 0, 33, 0, 93, 87, 98, 8, 1, 0, 0, 0, 1, 0, 0, 0,
    1, 0, 0, 0, 0, 0, 0, 0, 0, 0, 0, 0, 0, 0, 0, 0, 0, 0, 107,
    80, 75, 5, 6, 0, 0, 0, 0, 1, 0, 1, 0, 47, 0, 0, 0, 32, 0, 0, 0, 0, 0]

/-- A disk with one file, `/t.zip`. -/
def smallDisk (data : Bytes) : Disk where
  nodes := #[{ content := .directory (Table.empty.insert "t.zip" 1) Disk.root },
    { content := .file data }]

/-- A server without assigns. -/
def smallServer : Server where
  settings := {}
  environment := .bare
  schemes := .standard

/-- Mounts the container. -/
def mounting : Moment where
  disk := smallDisk smallContainer
  call := .mountArchive "/t.zip"

/-- The URI of a file below the root. -/
def rootFile (localPath : String) : Uri where
  scheme := Uri.fileScheme
  localPath

/-- What is mounted. -/
def smallArchive : Archive where
  uri := rootFile "/t.zip"
  mountPoint := ""
  data := .mapped 1 101
  index :=
    match Zip.items smallContainer with
    | .ok items => .ofItems items
    | .error _ => {}

theorem locate_smallDisk (data : Bytes) : (smallDisk data).locate "/t.zip" = .ok 1 := by
  have hroute : Disk.Route.ofPath "/t.zip"
      = .ok { fromRoot := true, names := ["t.zip"], slashed := false } := by decide
  have hname : (Table.empty.insert "t.zip" 1).get? "t.zip" = some 1 := by decide
  exact Disk.locate_name hroute rfl (by decide) hname rfl (by nofun)

/-- The container lists its file. -/
theorem items_smallContainer : ∃ items, Zip.items smallContainer = .ok items := by
  have hok : (Zip.items smallContainer).isOk = true := by decide
  cases hitems : Zip.items smallContainer with
  | error fault =>
    rw [hitems] at hok
    cases hok
  | ok items => exact ⟨items, rfl⟩

/-- The container is loaded from any URI of its file, for any mount point. -/
theorem load_smallContainer {uri : Uri} (hpath : uri.nativePath = "/t.zip") (mountPoint : Uri) :
    Archive.load (smallDisk smallContainer) true uri mountPoint
      = .ok { smallArchive with
          uri
          mountPoint := String.ofList (Text.dropTrailing '/' mountPoint.localPath.toList) } := by
  have hdata : Archive.loadData (smallDisk smallContainer) true 1 = .ok (.mapped 1 101) := by
    decide
  have hbytes : (smallDisk smallContainer).view 1 101 = smallContainer := by decide +kernel
  obtain ⟨items, hitems⟩ := items_smallContainer
  rw [Archive.load_of_items (by rw [hpath, locate_smallDisk]) hdata
    (by rw [ArchiveData.bytes, hbytes, hitems]), smallArchive, hitems]

theorem load_smallArchive (mountPoint : Uri) (hroot : mountPoint.localPath = "/") :
    Archive.load (smallDisk smallContainer) true (rootFile "/t.zip") mountPoint
      = .ok smallArchive := by
  have hpath : (rootFile "/t.zip").nativePath = "/t.zip" := by decide
  have hpoint : String.ofList (Text.dropTrailing '/' "/".toList) = "" := by decide
  rw [load_smallContainer hpath, hroot, hpoint]
  rfl

theorem run_of_attempt {server next : Server} {moment : Moment}
    (h : server.attempt moment = .ok next) : server.run [moment] = next := by
  show server.after moment = next
  rw [after, h]

/-- The first archive of the server is mounted if it can be loaded. -/
theorem mountUri_smallServer {uri mountPoint : Uri} {archive : Archive}
    (hload : Archive.load (smallDisk smallContainer) true uri mountPoint = .ok archive) :
    smallServer.mountUri (smallDisk smallContainer) uri mountPoint
      = .ok { smallServer with mounts := { archives := [archive] } } := by
  have hmount : smallServer.mounts.mount (smallDisk smallContainer) uri mountPoint
      = .ok { archives := [archive] } := Mounts.mount_of_load rfl List.not_mem_nil hload
  rw [mountUri, hmount]
  rfl

theorem mountArchive_small : smallServer.mountArchive (smallDisk smallContainer) "/t.zip"
    = .ok { smallServer with mounts := { archives := [smallArchive] } } := by
  have huri : smallServer.resolveArchive "/t.zip" = .ok (rootFile "/t.zip") := by
    decide
  have hpoint : (rootFile "/t.zip").parent.getD (rootFile "/t.zip") = rootFile "/" := by
    decide
  rw [mountArchive, huri, Outcome.ok_bind, hpoint]
  exact mountUri_smallServer (load_smallArchive (rootFile "/") rfl)

theorem run_mounting :
    smallServer.run [mounting] = { smallServer with mounts := { archives := [smallArchive] } } :=
  run_of_attempt mountArchive_small

theorem ready_small : (smallServer.run [mounting]).Ready := by
  rw [run_mounting]
  refine ⟨rfl, by decide, by decide, ?_⟩
  intro archive hin
  rw [List.mem_singleton.1 hin]
  exact ⟨rfl, rfl⟩

theorem resolve_small :
    (smallServer.run [mounting]).resolve "/k" = .ok (rootFile "/k") ∧
    (smallServer.run [mounting]).resolve "/t.zip" = .ok (rootFile "/t.zip") := by
  rw [run_mounting]
  exact ⟨by decide, by decide⟩

theorem holds_small : smallArchive.Holds "/k" "k" :=
  ⟨by decide, by decide⟩

theorem not_holds_small (inner : String) : ¬ smallArchive.Holds "/t.zip" inner := by
  rintro ⟨hinner, hfile⟩
  have hpath : smallArchive.innerPath "/t.zip" = some "t.zip" := by decide
  have hnone : smallArchive.file? "t.zip" = none := by decide
  rw [hpath] at hinner
  obtain rfl := Option.some.inj hinner
  rw [hnone] at hfile
  cases hfile

/-- The file of the container is shown from the container, the container from the disk. -/
theorem archive_precedence_small :
    (smallServer.run [mounting]).GivesEntry (smallDisk smallContainer) "/k" smallArchive "k" ∧
    (smallServer.run [mounting]).GivesFile (smallDisk smallContainer) "/t.zip"
      (rootFile "/t.zip") := by
  have hbuild : build {} smallServer.environment { standardAssigns := false } = .ok smallServer :=
    rfl
  have hlist : (smallServer.run [mounting]).mounts.archives = [] ++ smallArchive :: [] := by
    rw [run_mounting]
    rfl
  constructor
  · exact ((archive_precedence hbuild [mounting] ready_small (smallDisk smallContainer)
      resolve_small.1 rfl).1 [] smallArchive [] "k" hlist (List.forall_mem_nil _)
      holds_small).1
  · refine (archive_precedence hbuild [mounting] ready_small (smallDisk smallContainer)
      resolve_small.2 rfl).2 ?_
    intro archive hin
    rw [hlist] at hin
    rw [List.mem_singleton.1 hin]
    exact not_holds_small

/-- An entry of a mapped archive is not for ever what it was when the archive was mounted:
with another byte in the container there is nothing left to read. -/
theorem mapped_entry_overwritten :
    build {} smallServer.environment { standardAssigns := false } = .ok smallServer ∧
    (smallServer.run [mounting]).Ready ∧
    (smallServer.run [mounting]).resolve "/k" = .ok (rootFile "/k") ∧
    (smallServer.run [mounting]).mounts.archives = [smallArchive] ∧
    smallArchive.Holds "/k" "k" ∧
    smallArchive.readEntry mounting.disk "k" = .ok [107] ∧
    (smallServer.run [mounting]).contents (smallDisk (smallContainer.set 31 0)) "/k"
      = .error (.transfer (.wrongChecksum 0x0862575D 0xD202EF8D)) := by
  have hlist : (smallServer.run [mounting]).mounts.archives = [] ++ smallArchive :: [] := by
    rw [run_mounting]
    rfl
  have hbuild : build {} smallServer.environment { standardAssigns := false } = .ok smallServer :=
    rfl
  have hgives := ((sound_of_build hbuild).run [mounting]).givesEntry
    (smallDisk (smallContainer.set 31 0)) ready_small resolve_small.1 rfl hlist
    (List.forall_mem_nil _) holds_small
  refine ⟨hbuild, ready_small, resolve_small.1, hlist, holds_small, by decide +kernel, ?_⟩
  rw [hgives.contents]
  decide +kernel

end ArchiveVfs.Server
