import ArchiveVfs.Proofs.Assign.Steps
import ArchiveVfs.Proofs.Server.SwitchedOff
import ArchiveVfs.Proofs.Stream.Requests

/-!
# What lies in an archive cannot be changed

Where archives come before the disk, a path that leads to a file or a directory of any mounted
archive is read-only. Every operation that would change what is there is refused for it
(`perform_sealed`), and so is every opening of its stream for writing
(`answer_open_sealed`); the disk stays as it was, whatever it has at that path. These
refusals come from archives alone: the disk refuses in other words
(`sealed_of_perform`).
-/

namespace ArchiveVfs

/-- The archive has a file or a directory where the local path leads. -/
def Archive.Occupies (archive : Archive) (localPath : String) : Prop :=
  ∃ inner, archive.innerPath localPath = some inner ∧
    ((archive.file? inner).isSome = true ∨ archive.hasDirectory inner = true)

/-- What the disk refuses is told as a refusal of the system. -/
theorem Disk.of_blame {α : Type} {action : Action} {path : String} {error : Error}
    {outcome : Except SystemFault α} (h : blame action path outcome = .error error) :
    ∃ fault, error = .disk action path fault := by
  obtain ⟨fault, _, rfl⟩ := Outcome.mapError_eq_error.1 h
  exact ⟨fault, rfl⟩

namespace Server

variable {server : Server} {disk : Disk} {path : String} {uri : Uri} {action : Action}

/-! ## Operations that change what is there -/

/-- The path and the activity of an operation that changes what is there. -/
def FileOperation.change? : FileOperation → Option (String × Action)
  | deleteFile path => some (path, .deleteFile)
  | deleteDirectory path => some (path, .deleteDirectory)
  | setReadOnly path _ => some (path, .setReadOnly)
  | setWriteTime path _ => some (path, .setWriteTime)
  | _ => none

/-- The refusal to change what lies in an archive. -/
def sealedRefusal (uri : Uri) (action : Action) : Error :=
  .unsupportedAccess uri .read action

theorem archivesHold_iff (henabled : server.archivesEnabled = true)
    (hfile : uri.isFile = true) : server.archivesHold uri = true ↔
      ∃ archive ∈ server.mounts.archives, archive.Occupies uri.localPath := by
  rw [archivesHold, fileArchive?, directoryArchive?, if_pos henabled, if_pos henabled,
    Bool.or_eq_true, Mounts.findWithFile, Mounts.findWithDirectory, Mounts.findWith_isSome,
    Mounts.findWith_isSome]
  simp only [hfile, true_and, Archive.Occupies, and_or_left, exists_or]

theorem writablePath_sealed (hresolve : server.resolve path = .ok uri)
    (hsealed : server.isSealed uri = true) :
    server.writablePath path action = .error (sealedRefusal uri action) := by
  rw [writablePath, hresolve, Outcome.ok_bind, if_pos hsealed]
  rfl

theorem writablePath_unsealed (hresolve : server.resolve path = .ok uri)
    (hunsealed : server.isSealed uri = false) :
    server.writablePath path action = nativePath uri := by
  rw [writablePath, hresolve, Outcome.ok_bind, hunsealed]
  rfl

/-- A path is not resolved because of its assigns or because nothing is left of it. -/
theorem resolve_eq_error {error : Error} (h : server.resolve path = .error error) :
    error = .cyclicAssign path 8 ∨ error = .invalidUri (.emptyPath path) := by
  rw [resolve] at h
  rcases Outcome.bind_eq_error.1 h with h | ⟨resolved, _, h⟩
  · exact .inl (Assigns.resolve_eq_error.1 h).2
  · split at h
    · cases h
    · split at h
      · exact .inr (Except.error.inj h).symm
      · cases h

/-- Only what an archive seals is refused as such. -/
theorem sealed_of_writablePath {refused : Uri} {mode : AccessMode} {activity : Action}
    (h : server.writablePath path action = .error (.unsupportedAccess refused mode activity)) :
    ∃ uri, server.resolve path = .ok uri ∧ server.isSealed uri = true := by
  cases hresolve : server.resolve path with
  | error error =>
    rw [writablePath, hresolve] at h
    rcases resolve_eq_error hresolve with rfl | rfl
    · cases h
    · cases h
  | ok uri =>
    refine ⟨uri, rfl, ?_⟩
    cases hsealed : server.isSealed uri with
    | true => rfl
    | false =>
      rw [writablePath_unsealed hresolve hsealed, nativePath] at h
      split at h
      · cases h
      · cases h

/-- An operation that changes what is there asks for a path that may be written, and leaves
the rest to the disk, which refuses as a system does. -/
theorem perform_change (disk : Disk) {operation : FileOperation}
    (hchange : operation.change? = some (path, action)) :
    ∃ change : String → Except Error Disk,
      (∀ native error, change native = .error error →
        ∃ blamed fault, error = .disk blamed native fault) ∧
      ∀ server : Server, server.perform disk operation
        = settle disk (server.writablePath path action >>= change) := by
  cases operation with
  | deleteFile path =>
    obtain ⟨rfl, rfl⟩ := Prod.mk.inj (Option.some.inj hchange)
    exact ⟨disk.deleteFile, fun native error h => ⟨_, Disk.of_blame h⟩, fun _ => rfl⟩
  | deleteDirectory path =>
    obtain ⟨rfl, rfl⟩ := Prod.mk.inj (Option.some.inj hchange)
    exact ⟨disk.deleteDirectory, fun native error h => ⟨_, Disk.of_blame h⟩, fun _ => rfl⟩
  | setReadOnly path readOnly =>
    obtain ⟨rfl, rfl⟩ := Prod.mk.inj (Option.some.inj hchange)
    exact ⟨fun native => disk.setReadOnly native readOnly,
      fun native error h => ⟨_, Disk.of_blame h⟩, fun _ => rfl⟩
  | setWriteTime path time =>
    obtain ⟨rfl, rfl⟩ := Prod.mk.inj (Option.some.inj hchange)
    exact ⟨fun native => disk.setWriteTime native time,
      fun native error h => ⟨_, Disk.of_blame h⟩, fun _ => rfl⟩
  | _ => cases hchange

/-- What lies in an archive is refused to every change, and the disk stays as it was. -/
theorem perform_sealed {operation : FileOperation}
    (hchange : operation.change? = some (path, action))
    (hresolve : server.resolve path = .ok uri) (hsealed : server.isSealed uri = true) :
    server.perform disk operation = (.error (sealedRefusal uri action), disk) := by
  obtain ⟨change, _, hperform⟩ := perform_change disk hchange
  rw [hperform, writablePath_sealed hresolve hsealed]
  rfl

/-- A change that is refused as one of what lies in an archive was one. -/
theorem sealed_of_perform {operation : FileOperation}
    (hchange : operation.change? = some (path, action)) {refused : Uri} {mode : AccessMode}
    {activity : Action} (h : (server.perform disk operation).1
      = .error (.unsupportedAccess refused mode activity)) :
    (∃ uri, server.resolve path = .ok uri ∧ server.isSealed uri = true) ∧
      (server.perform disk operation).2 = disk := by
  obtain ⟨change, hsystem, hperform⟩ := perform_change disk hchange
  rw [hperform] at h ⊢
  cases hwritable : server.writablePath path action with
  | error error =>
    rw [hwritable] at h
    obtain rfl := Except.error.inj h
    exact ⟨sealed_of_writablePath hwritable, rfl⟩
  | ok native =>
    rw [hwritable, Outcome.ok_bind] at h
    cases hdone : change native with
    | error error =>
      obtain ⟨blamed, fault, rfl⟩ := hsystem native error hdone
      rw [hdone] at h
      cases h
    | ok next =>
      rw [hdone] at h
      cases h

theorem isReadOnly_sealed (hresolve : server.resolve path = .ok uri)
    (hsealed : server.isSealed uri = true) : server.isReadOnly disk path = true := by
  simp only [isReadOnly, hresolve, hsealed, Bool.true_or]

/-! ## Streams -/

/-- Opening the stream of an entry for anything but reading is refused. -/
theorem answer_open_sealed (mounts : Mounts) (disk : Disk) (entry : Uri) {mode : AccessMode}
    (hmode : mode ≠ .read) :
    let stream := (Stream.entry { uri := entry }).setMode mode
    stream.answer mounts disk (.call .tryOpen)
      = .error (.unsupportedAccess entry mode .openStream) ∧
    stream.after mounts disk (.call .tryOpen) = (stream, disk) := by
  have hopen : ({ uri := entry, mode } : EntryStream).tryOpen mounts disk
      = .error (.unsupportedAccess entry mode .openStream) := by
    simp only [EntryStream.tryOpen, if_pos hmode]
    rfl
  have hclosed : (Stream.entry { uri := entry }).setMode mode = .entry { uri := entry, mode } := rfl
  intro stream
  constructor
  · show (stream.tryOpen mounts disk).map _ = _
    simp only [stream, hclosed, Stream.tryOpen, hopen]
    rfl
  · simp only [stream, hclosed, Stream.after, Stream.perform, Stream.tryOpen, hopen]
    rfl

/-- The stream of a path that leads to a file of an archive is one over an entry. -/
theorem createStream_hidden (henabled : server.archivesEnabled = true)
    (hkind : server.schemes.kindOf Uri.archiveScheme = .ok .entry)
    (hresolve : server.resolve path = .ok uri)
    (hhidden : (server.mounts.findWithFile uri).isSome = true) :
    ∃ archive ∈ server.mounts.archives, ∃ inner,
      server.createStream path = .ok (.entry { uri := archive.entryUri inner }) := by
  obtain ⟨⟨archive, inner⟩, hfound⟩ := Option.isSome_iff_exists.1 hhidden
  refine ⟨archive, (Mounts.of_findWith hfound).2.1, inner, ?_⟩
  have htarget : server.target uri true = archive.entryUri inner := by
    rw [target, henabled, Bool.and_true, if_pos rfl, Mounts.redirect, hfound]
  have hscheme : (archive.entryUri inner).scheme = Uri.archiveScheme :=
    Uri.scheme_entryOf archive.uri inner
  rw [createStream, hresolve, Outcome.ok_bind, streamFor, htarget, hscheme, hkind]
  rfl

/-! ## Both together -/

/-- A path that leads to a file or a directory of a mounted archive is read-only, whatever the
disk has there: each change of it is refused, its stream opens for reading only, and the
disk stays as it was; the server is none of what these operations return. A change that is
refused in this way is one of a path that is read-only. -/
theorem archived_path_sealed :
    (∀ (server : Server) (disk : Disk) (path : String) (uri : Uri),
      server.archivesEnabled = true → server.resolve path = .ok uri → uri.isFile = true →
      (∃ archive ∈ server.mounts.archives, archive.Occupies uri.localPath) →
      server.isReadOnly disk path = true ∧
      (∀ operation action, operation.change? = some (path, action) →
        server.perform disk operation = (.error (sealedRefusal uri action), disk))) ∧
    (∀ (server : Server) (disk : Disk) (path : String) (uri : Uri),
      server.archivesEnabled = true → server.schemes.kindOf Uri.archiveScheme = .ok .entry →
      server.resolve path = .ok uri → uri.isFile = true →
      (∃ archive ∈ server.mounts.archives, ∃ inner, archive.Holds uri.localPath inner) →
      ∃ archive ∈ server.mounts.archives, ∃ inner,
        server.createStream path = .ok (.entry { uri := archive.entryUri inner }) ∧
        ∀ mode, mode ≠ .read →
          let stream := (Stream.entry { uri := archive.entryUri inner }).setMode mode
          stream.answer server.mounts disk (.call .tryOpen)
            = .error (.unsupportedAccess (archive.entryUri inner) mode .openStream) ∧
          stream.after server.mounts disk (.call .tryOpen) = (stream, disk)) ∧
    (∀ (server : Server) (disk : Disk) (operation : FileOperation) (path : String)
      (action : Action) (refused : Uri) (mode : AccessMode) (activity : Action),
      operation.change? = some (path, action) →
      (server.perform disk operation).1 = .error (.unsupportedAccess refused mode activity) →
      server.isReadOnly disk path = true ∧ (server.perform disk operation).2 = disk) := by
  refine ⟨?_, ?_, ?_⟩
  · intro server disk path uri henabled hresolve hfile hoccupied
    have hholds := (archivesHold_iff henabled hfile).2 hoccupied
    have hsealed : server.isSealed uri = true := by rw [isSealed, hholds, Bool.or_true]
    exact ⟨isReadOnly_sealed hresolve hsealed,
      fun operation action hchange => perform_sealed hchange hresolve hsealed⟩
  · intro server disk path uri henabled hkind hresolve hfile hheld
    have hhidden : (server.mounts.findWithFile uri).isSome = true :=
      Mounts.findWith_isSome.2 ⟨hfile, hheld⟩
    obtain ⟨archive, hin, inner, hstream⟩ :=
      createStream_hidden henabled hkind hresolve hhidden
    exact ⟨archive, hin, inner, hstream,
      fun mode hmode => answer_open_sealed server.mounts disk _ hmode⟩
  · intro server disk operation path action refused mode activity hchange hrefused
    obtain ⟨⟨uri, hresolve, hsealed⟩, hdisk⟩ := sealed_of_perform hchange hrefused
    exact ⟨isReadOnly_sealed hresolve hsealed, hdisk⟩

theorem occupies_small : smallArchive.Occupies "/k" ∧ smallArchive.Occupies "/" :=
  ⟨⟨"k", holds_small.1, .inl holds_small.2⟩, ⟨"", by decide, .inr (by decide +kernel)⟩⟩

/-- The file of the container is not deleted nor written to, and the directory that the container
is mounted at is not marked. -/
theorem archived_path_sealed_small :
    let server := smallServer.run [mounting]
    let disk := smallDisk smallContainer
    server.isReadOnly disk "/k" = true ∧
    server.perform disk (.deleteFile "/k")
      = (.error (sealedRefusal (rootFile "/k") .deleteFile), disk) ∧
    server.perform disk (.setReadOnly "/" true)
      = (.error (sealedRefusal (rootFile "/") .setReadOnly), disk) ∧
    server.isReadOnly disk "/" = true ∧
    ∃ archive ∈ server.mounts.archives, ∃ inner,
      server.createStream "/k" = .ok (.entry { uri := archive.entryUri inner }) ∧
      ((Stream.entry { uri := archive.entryUri inner }).setMode .append).answer server.mounts disk
          (.call .tryOpen)
        = .error (.unsupportedAccess (archive.entryUri inner) .append .openStream) := by
  intro server disk
  have hlist : smallArchive ∈ server.mounts.archives := by
    show smallArchive ∈ (smallServer.run [mounting]).mounts.archives
    rw [run_mounting]
    exact List.mem_cons_self
  have hroot : server.resolve "/" = .ok (rootFile "/") := by
    show (smallServer.run [mounting]).resolve "/" = _
    rw [run_mounting]
    decide
  obtain ⟨hchanges, hstreams, hconverse⟩ := archived_path_sealed
  obtain ⟨hreadOnly, hfile⟩ := hchanges server disk "/k" (rootFile "/k") ready_small.enabled
    resolve_small.1 rfl ⟨smallArchive, hlist, occupies_small.1⟩
  obtain ⟨_, hdir⟩ := hchanges server disk "/" (rootFile "/") ready_small.enabled hroot rfl
    ⟨smallArchive, hlist, occupies_small.2⟩
  have hmark := hdir (.setReadOnly "/" true) .setReadOnly rfl
  refine ⟨hreadOnly, hfile (.deleteFile "/k") .deleteFile rfl, hmark, ?_, ?_⟩
  · exact (hconverse server disk (.setReadOnly "/" true) "/" .setReadOnly (rootFile "/") .read
      .setReadOnly rfl (congrArg Prod.fst hmark)).1
  · obtain ⟨archive, hin, inner, hstream, hopen⟩ := hstreams server disk "/k" (rootFile "/k")
      ready_small.enabled ready_small.entryKind resolve_small.1 rfl
      ⟨smallArchive, hlist, "k", holds_small⟩
    exact ⟨archive, hin, inner, hstream, (hopen .append (by decide)).1⟩

end Server

end ArchiveVfs
