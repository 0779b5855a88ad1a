import ArchiveVfs.Proofs.Server.Inertia
import ArchiveVfs.Proofs.Server.Precedence

/-!
# Archives that are switched off

With archives switched off every operation on files does what it would do if no archive
were mounted: it answers the same and leaves the same disk (`perform_bare`). Switching
only flips the switch: a history leaves the archives that it leaves without its switches
(`mounts_afterAll_unswitched`). `switched_off_eq_unmounted` joins the two.

Of the factories that a scheme can be bound to, only that of archive entries makes streams
that look at the mounted archives by themselves, so an operation that opens streams agrees
unless the scheme of files has been bound to it.
-/

namespace ArchiveVfs.Server

/-! ## Operations -/

/-- An operation on the files and directories that paths lead to. -/
inductive FileOperation where
  | fileExists (path : String)
  | directoryExists (path : String)
  | isReadOnly (path : String)
  | list (path pattern : String) (whole : Bool) (listing : Listing)
  | createStream (path : String)
  | contents (path : String)
  | checksum (path : String)
  | copyFile (source target : String)
  | createDirectory (path : String)
  | deleteFile (path : String)
  | deleteDirectory (path : String)
  | setReadOnly (path : String) (readOnly : Bool)
  | writeTime (path : String)
  | setWriteTime (path : String) (time : Int)

namespace FileOperation

/-- The paths that an operation is about. -/
def paths : FileOperation → List String
  | fileExists path | directoryExists path | isReadOnly path | list path .. | createStream path
  | contents path | checksum path | createDirectory path | deleteFile path | deleteDirectory path
  | setReadOnly path _ | writeTime path | setWriteTime path _ => [path]
  | copyFile source target => [source, target]

/-- Whether an operation opens streams. -/
def opensStreams : FileOperation → Bool
  | contents _ | checksum _ | copyFile .. => true
  | _ => false

end FileOperation

/-- What an operation that succeeds answers. -/
inductive FileAnswer where
  | done
  | flag (value : Bool)
  | names (listed : List String)
  | stream (created : Stream)
  | bytes (read : Bytes)
  | checksum (value : UInt32)
  | time (value : Int)

/-- The outcome of a change of the disk; one that fails leaves the disk as it was. -/
def settle (disk : Disk) : Except Error Disk → Except Error FileAnswer × Disk
  | .ok next => (.ok .done, next)
  | .error error => (.error error, disk)

/-- What an operation answers, and the disk that it leaves. -/
def perform (server : Server) (disk : Disk) : FileOperation → Except Error FileAnswer × Disk
  | .fileExists path => (.ok (.flag (server.fileExists disk path)), disk)
  | .directoryExists path => (.ok (.flag (server.directoryExists disk path)), disk)
  | .isReadOnly path => (.ok (.flag (server.isReadOnly disk path)), disk)
  | .list path pattern whole listing =>
    ((server.list disk path pattern whole listing).map .names, disk)
  | .createStream path => ((server.createStream path).map .stream, disk)
  | .contents path => ((server.contents disk path).map .bytes, disk)
  | .checksum path => ((server.checksum disk path).map .checksum, disk)
  | .copyFile source target =>
    ((server.copyFile disk source target).1.map fun _ => .done,
      (server.copyFile disk source target).2)
  | .createDirectory path =>
    ((server.createDirectory disk path).1.map fun _ => .done, (server.createDirectory disk path).2)
  | .deleteFile path => settle disk (server.deleteFile disk path)
  | .deleteDirectory path => settle disk (server.deleteDirectory disk path)
  | .setReadOnly path readOnly => settle disk (server.setReadOnly disk path readOnly)
  | .writeTime path => ((server.writeTime disk path).map .time, disk)
  | .setWriteTime path time => settle disk (server.setWriteTime disk path time)

/-! ## Without archives -/

/-- The server with no archive mounted. -/
def bare (server : Server) : Server :=
  { server with mounts := { server.mounts with archives := [] } }

section SwitchedOff

variable {server : Server} {uri : Uri}

theorem resolve_bare (path : String) : server.bare.resolve path = server.resolve path := rfl

theorem fileArchive?_off (hoff : server.archivesEnabled = false) :
    server.fileArchive? uri = none := by
  rw [fileArchive?, hoff]
  rfl

theorem directoryArchive?_off (hoff : server.archivesEnabled = false) :
    server.directoryArchive? uri = none := by
  rw [directoryArchive?, hoff]
  rfl

theorem archivesHold_off (hoff : server.archivesEnabled = false) :
    server.archivesHold uri = false := by
  rw [archivesHold, fileArchive?_off hoff, directoryArchive?_off hoff]
  rfl

theorem isSealed_off (hoff : server.archivesEnabled = false) :
    server.isSealed uri = uri.isEntry := by
  rw [isSealed, archivesHold_off hoff, Bool.or_false]

theorem streamFor_off (hoff : server.archivesEnabled = false) (throughArchives : Bool) :
    server.streamFor uri throughArchives
      = (server.schemes.kindOf uri.scheme).map fun kind => kind.create uri := by
  have htarget : server.target uri throughArchives = uri := by
    rw [target, hoff, Bool.and_false, if_neg Bool.false_ne_true]
  rw [streamFor, htarget]

theorem fileAt_off (hoff : server.archivesEnabled = false) (hfile : uri.isFile = true)
    (disk : Disk) : server.fileAt disk uri = disk.fileExists uri.nativePath := by
  rw [fileAt, fileArchive?_off hoff, if_pos hfile]
  rfl

/-- Of the streams for files only those of archive entries would look at the archives. -/
theorem openStream_bare (hoff : server.archivesEnabled = false) (hfile : uri.isFile = true)
    (hkind : server.schemes.kindOf Uri.fileScheme ≠ .ok .entry) (disk : Disk) (mode : AccessMode)
    (throughArchives : Bool) :
    server.bare.openStream disk uri mode throughArchives
      = server.openStream disk uri mode throughArchives := by
  have hscheme : uri.scheme = Uri.fileScheme := of_decide_eq_true hfile
  have hoffBare : server.bare.archivesEnabled = false := hoff
  rw [openStream, openStream, streamFor_off hoff, streamFor_off hoffBare, hscheme]
  show ((server.schemes.kindOf Uri.fileScheme).map _ >>= _) = _
  cases hfound : server.schemes.kindOf Uri.fileScheme with
  | error error => rfl
  | ok kind =>
    cases kind with
    | memory => rfl
    | file => rfl
    | entry => exact absurd hfound hkind

/-- What an archive might seal is not asked for, and the rest of the check sees no
archives. -/
theorem writablePath_bare (hoff : server.archivesEnabled = false) (path : String)
    (action : Action) : server.bare.writablePath path action = server.writablePath path action := by
  have hsealed (uri : Uri) : server.bare.isSealed uri = server.isSealed uri := by
    have hoffBare : server.bare.archivesEnabled = false := hoff
    rw [isSealed_off hoff, isSealed_off hoffBare]
  simp only [writablePath, resolve_bare, hsealed]

theorem contents_bare (hoff : server.archivesEnabled = false) {path : String}
    (hresolve : server.resolve path = .ok uri) (hfile : uri.isFile = true)
    (hkind : server.schemes.kindOf Uri.fileScheme ≠ .ok .entry) (disk : Disk) :
    server.bare.contents disk path = server.contents disk path := by
  rw [contents, contents, resolve_bare, hresolve, Outcome.ok_bind, Outcome.ok_bind,
    openStream_bare hoff hfile hkind]

theorem checksum_bare (hoff : server.archivesEnabled = false) {path : String}
    (hresolve : server.resolve path = .ok uri) (hfile : uri.isFile = true)
    (hkind : server.schemes.kindOf Uri.fileScheme ≠ .ok .entry) (disk : Disk) :
    server.bare.checksum disk path = server.checksum disk path := by
  rw [checksum, checksum, resolve_bare, hresolve, Outcome.ok_bind, Outcome.ok_bind,
    openStream_bare hoff hfile hkind]
  rfl

theorem copyFile_bare (hoff : server.archivesEnabled = false) {source target : String}
    {sourceUri targetUri : Uri} (hsource : server.resolve source = .ok sourceUri)
    (hsourceFile : sourceUri.isFile = true) (htarget : server.resolve target = .ok targetUri)
    (htargetFile : targetUri.isFile = true)
    (hkind : server.schemes.kindOf Uri.fileScheme ≠ .ok .entry) (disk : Disk) :
    server.bare.copyFile disk source target = server.copyFile disk source target := by
  simp only [copyFile, resolve_bare, hsource, htarget, copyTo,
    openStream_bare hoff hsourceFile hkind, openStream_bare hoff htargetFile hkind]
  rfl

/-- With archives switched off, an operation on files does what it does with no archive
mounted. -/
theorem perform_bare (hoff : server.archivesEnabled = false) (disk : Disk)
    (operation : FileOperation)
    (hpaths : ∀ path ∈ operation.paths,
      ∃ uri, server.resolve path = .ok uri ∧ uri.isFile = true)
    (hkind : operation.opensStreams = true →
      server.schemes.kindOf Uri.fileScheme ≠ .ok .entry) :
    server.bare.perform disk operation = server.perform disk operation := by
  have hoffBare : server.bare.archivesEnabled = false := hoff
  cases operation with
  | fileExists path =>
    obtain ⟨uri, hresolve, hfile⟩ := hpaths path List.mem_cons_self
    simp only [perform, fileExists, resolve_bare, hresolve, fileAt_off hoff hfile,
      fileAt_off hoffBare hfile]
  | directoryExists path =>
    simp only [perform, directoryExists, resolve_bare, directoryArchive?_off hoff,
      directoryArchive?_off hoffBare]
  | isReadOnly path =>
    simp only [perform, isReadOnly, resolve_bare, isSealed_off hoff, isSealed_off hoffBare]
  | list path pattern whole listing =>
    simp only [perform, list, namesAt, resolve_bare, directoryArchive?_off hoff,
      directoryArchive?_off hoffBare]
  | createStream path =>
    simp only [perform, createStream, resolve_bare, streamFor_off hoff, streamFor_off hoffBare]
    rfl
  | contents path =>
    obtain ⟨uri, hresolve, hfile⟩ := hpaths path List.mem_cons_self
    rw [perform, perform, contents_bare hoff hresolve hfile (hkind rfl)]
  | checksum path =>
    obtain ⟨uri, hresolve, hfile⟩ := hpaths path List.mem_cons_self
    rw [perform, perform, checksum_bare hoff hresolve hfile (hkind rfl)]
  | copyFile source target =>
    obtain ⟨sourceUri, hsource, hsourceFile⟩ := hpaths source List.mem_cons_self
    obtain ⟨targetUri, htarget, htargetFile⟩ :=
      hpaths target (List.mem_cons_of_mem _ List.mem_cons_self)
    rw [perform, perform,
      copyFile_bare hoff hsource hsourceFile htarget htargetFile (hkind rfl)]
  | createDirectory path => rfl
  | deleteFile path => simp only [perform, deleteFile, writablePath_bare hoff]
  | deleteDirectory path => simp only [perform, deleteDirectory, writablePath_bare hoff]
  | setReadOnly path readOnly => simp only [perform, setReadOnly, writablePath_bare hoff]
  | writeTime path =>
    simp only [perform, writeTime, resolve_bare, fileArchive?_off hoff,
      fileArchive?_off hoffBare]
  | setWriteTime path time => simp only [perform, setWriteTime, writablePath_bare hoff]

end SwitchedOff

/-! ## The switch -/

/-- The server with the switch in a position. -/
def switch (server : Server) (enabled : Bool) : Server :=
  { server with archivesEnabled := enabled }

/-- Whether an event only switches archives on or off. -/
def Event.isSwitch : Event → Bool
  | call ⟨_, .enableArchives _⟩ => true
  | _ => false

section Switching

variable {server : Server}

theorem inert_switch (enabled : Bool) : Inert fun server => server.switch enabled where
  resolve _ _ := rfl
  standardArchive _ := rfl
  assigns _ := rfl
  schemes _ := rfl
  mounts _ := rfl
  standardMounted _ := rfl
  withAssigns _ _ := rfl
  withSchemes _ _ := rfl
  withMounts _ _ := rfl
  withStandard _ _ := rfl

/-- No other event looks at the switch, and all keep its position. -/
theorem afterEvent_switch (enabled : Bool) {event : Event} (h : event.isSwitch = false) :
    (server.switch enabled).afterEvent event = (server.afterEvent event).switch enabled := by
  refine afterEvent_inert (inert_switch enabled) fun disk position hflip => ?_
  rw [hflip] at h
  cases h

theorem afterEvent_of_isSwitch (server : Server) {event : Event} (h : event.isSwitch = true) :
    ∃ enabled, server.afterEvent event = server.switch enabled := by
  cases event with
  | mountUri => cases h
  | call moment =>
    obtain ⟨disk, call⟩ := moment
    cases call with
    | enableArchives enabled => exact ⟨enabled, rfl⟩
    | _ => cases h

/-- A history leaves the server that it leaves without its switches, but for the position
of the switch. -/
theorem afterAll_unswitched (server : Server) (events : List Event) :
    ∃ enabled, server.afterAll events
      = (server.afterAll (events.filter fun event => !event.isSwitch)).switch enabled := by
  -- both runs go on from servers that differ at most in the switch
  suffices h : ∀ (position : Bool), ∃ enabled, (server.switch position).afterAll events
      = (server.afterAll (events.filter fun event => !event.isSwitch)).switch enabled from
    h server.archivesEnabled
  induction events generalizing server with
  | nil => exact fun position => ⟨position, rfl⟩
  | cons event events ih =>
    intro position
    cases hswitch : event.isSwitch with
    | true =>
      obtain ⟨turned, heq⟩ := afterEvent_of_isSwitch (server.switch position) hswitch
      rw [afterAll, heq, List.filter_cons_of_neg (by simp [hswitch])]
      exact ih server turned
    | false =>
      rw [afterAll, afterEvent_switch position hswitch,
        List.filter_cons_of_pos (by simp [hswitch]), afterAll]
      exact ih (server.afterEvent event) position

/-- Switches change nothing in the archives that a history leaves. -/
theorem mounts_afterAll_unswitched (server : Server) (events : List Event) :
    (server.afterAll (events.filter fun event => !event.isSwitch)).mounts
      = (server.afterAll events).mounts := by
  obtain ⟨enabled, heq⟩ := afterAll_unswitched server events
  rw [heq]
  rfl

end Switching

/-! ## Both together -/

/-- With archives switched off, an operation on files does what it does with no archive
mounted; and switching archives off and on leaves them mounted as they are. -/
theorem switched_off_eq_unmounted :
    (∀ (server : Server) (disk : Disk) (operation : FileOperation),
      server.archivesEnabled = false →
      (∀ path ∈ operation.paths, ∃ uri, server.resolve path = .ok uri ∧ uri.isFile = true) →
      (operation.opensStreams = true →
        server.schemes.kindOf Uri.fileScheme ≠ .ok .entry) →
      server.perform disk operation = server.bare.perform disk operation) ∧
    (∀ (server : Server) (events : List Event),
      (server.afterAll events).mounts.archives
        = (server.afterAll (events.filter fun event => !event.isSwitch)).mounts.archives) := by
  constructor
  · intro server disk operation hoff hpaths hkind
    exact (perform_bare hoff disk operation hpaths hkind).symm
  · intro server events
    rw [mounts_afterAll_unswitched]

/-- A server with the container mounted and archives switched off. -/
def offServer : Server :=
  (smallServer.run [mounting]).switch false

/-- A copy of the hidden file over its container, and a switch to and fro. -/
theorem switched_off_eq_unmounted_small :
    offServer.mounts.archives = [smallArchive] ∧ smallArchive.Holds "/k" "k" ∧
    offServer.perform (smallDisk smallContainer) (.copyFile "/k" "/t.zip")
      = offServer.bare.perform (smallDisk smallContainer) (.copyFile "/k" "/t.zip") ∧
    (smallServer.afterAll [.call mounting, .call { mounting with call := .enableArchives false },
      .call { mounting with call := .enableArchives true }]).mounts.archives = [smallArchive] := by
  have hmounted : offServer.mounts.archives = [smallArchive] := by
    rw [offServer, run_mounting]
    rfl
  refine ⟨hmounted, holds_small, ?_, ?_⟩
  · refine switched_off_eq_unmounted.1 offServer (smallDisk smallContainer)
      (.copyFile "/k" "/t.zip") rfl ?_ ?_
    · intro path hin
      simp only [FileOperation.paths, List.mem_cons, List.not_mem_nil, or_false] at hin
      rcases hin with rfl | rfl
      · exact ⟨rootFile "/k", resolve_small.1, rfl⟩
      · exact ⟨rootFile "/t.zip", resolve_small.2, rfl⟩
    · intro _ hentry
      rw [show offServer.schemes.kindOf Uri.fileScheme = _ from ready_small.fileKind] at hentry
      cases hentry
  · rw [switched_off_eq_unmounted.2]
    exact hmounted

/-- The container's file after it was deleted; its bytes stay as long as they are mapped. -/
def goneDisk : Disk where
  nodes := #[{ content := .directory .empty Disk.root }, { content := .file smallContainer }]

theorem locate_goneDisk : goneDisk.locate "/t.zip" = .error .notFound := by
  have hroute : Disk.Route.ofPath "/t.zip"
      = .ok { fromRoot := true, names := ["t.zip"], slashed := false } := by decide
  exact Disk.locate_vacant hroute rfl (by decide) rfl

/-- Where it is not mounted, the container is looked for on the disk, and is gone. -/
theorem tryOpen_goneDisk {mounts : Mounts} {uri : Uri} {inner : String}
    (hpath : EntryStream.entryPath? uri = some inner) (hfile : uri.archiveFile = rootFile "/t.zip")
    (hfind : mounts.find? (rootFile "/t.zip") = none) :
    ({ uri } : EntryStream).tryOpen mounts goneDisk
      = .error (.badArchive (rootFile "/t.zip") (.system .notFound)) := by
  have hnative : (rootFile "/t.zip").nativePath = "/t.zip" := by decide
  simp only [EntryStream.tryOpen, hpath, hfile, Mounts.findOrLoad, hfind, Archive.load, hnative,
    locate_goneDisk]
  rfl

/-- A URI of the container's file that also tells the entry. -/
def entryUri : Uri :=
  { rootFile "/t.zip" with query := [("file", "k")] }

/-- What is done to the server: the container is mounted, files are given the streams of
entries, and archives are switched off. -/
def filesAsEntries : List Event :=
  [.call mounting, .call { mounting with call := .unregisterScheme Uri.fileScheme },
    .call { mounting with call := .registerScheme Uri.fileScheme .entry },
    .call { mounting with call := .enableArchives false }]

/-- The schemes with the streams of entries for files too. -/
def entrySchemes : Schemes :=
  (Schemes.standard.unregister Uri.fileScheme).insert Uri.fileScheme .entry

/-- Where files have the streams of entries, archives that are switched off are seen: the
entry of a container that is gone is read because the container is mounted. -/
theorem switched_off_entry_stream :
    build {} smallServer.environment { standardAssigns := false } = .ok smallServer ∧
    (smallServer.afterAll filesAsEntries).archivesEnabled = false ∧
    (smallServer.afterAll filesAsEntries).resolve "file:///t.zip?file=k"
      = .ok entryUri ∧
    (smallServer.afterAll filesAsEntries).perform goneDisk (.contents "file:///t.zip?file=k")
      = (.ok (.bytes [107]), goneDisk) ∧
    (smallServer.afterAll filesAsEntries).bare.perform goneDisk
        (.contents "file:///t.zip?file=k")
      = (.error (.badArchive (rootFile "/t.zip") (.system .notFound)), goneDisk) := by
  have hregister : (Schemes.standard.unregister Uri.fileScheme).register Uri.fileScheme .entry
      = .ok entrySchemes := by
    rw [Schemes.register, if_neg (by decide +kernel)]
    rfl
  have hserver : smallServer.afterAll filesAsEntries = { smallServer with
      mounts := { archives := [smallArchive] }, schemes := entrySchemes
      archivesEnabled := false } := by
    have hmounted : smallServer.afterEvent (.call mounting)
        = { smallServer with mounts := { archives := [smallArchive] } } := run_mounting
    rw [filesAsEntries, afterAll, hmounted, afterAll, afterAll]
    have hentries (server : Server)
        (h : server.schemes = Schemes.standard.unregister Uri.fileScheme) :
        server.afterEvent (.call { mounting with call := .registerScheme Uri.fileScheme .entry })
          = { server with schemes := entrySchemes } := by
      refine afterEvent_of_ok ?_
      show (server.schemes.register Uri.fileScheme .entry).map _ = _
      rw [h, hregister]
      rfl
    rw [hentries _ rfl]
    rfl
  have hresolve : (smallServer.afterAll filesAsEntries).resolve "file:///t.zip?file=k"
      = .ok entryUri := by
    rw [hserver]
    decide +kernel
  refine ⟨rfl, by rw [hserver], hresolve, ?_, ?_⟩
  · rw [hserver, perform]
    have hcontents : Server.contents { smallServer with
        mounts := { archives := [smallArchive] }, schemes := entrySchemes
        archivesEnabled := false } goneDisk "file:///t.zip?file=k" = .ok [107] := by
      decide +kernel
    rw [hcontents]
    rfl
  · -- without the mounted archive the container is looked for on the disk
    have hopen : ({ uri := entryUri } : EntryStream).tryOpen {} goneDisk
        = .error (.badArchive (rootFile "/t.zip") (.system .notFound)) := by
      have hpath : EntryStream.entryPath? entryUri = some "k" := by decide +kernel
      exact tryOpen_goneDisk hpath (by decide +kernel) rfl
    have hkind : entrySchemes.kindOf Uri.fileScheme = .ok .entry := by decide +kernel
    have hcontents : (smallServer.afterAll filesAsEntries).bare.contents goneDisk
        "file:///t.zip?file=k" = .error (.badArchive (rootFile "/t.zip") (.system .notFound)) := by
      rw [contents, resolve_bare, hresolve, Outcome.ok_bind, hserver, openStream,
        streamFor_off rfl]
      show ((entrySchemes.kindOf Uri.fileScheme).map _ >>= _) >>= _ = _
      rw [hkind]
      show (({ uri := entryUri } : EntryStream).tryOpen {} goneDisk).map _ >>= _ = _
      rw [hopen]
      rfl
    rw [perform, hcontents]
    rfl

end ArchiveVfs.Server
