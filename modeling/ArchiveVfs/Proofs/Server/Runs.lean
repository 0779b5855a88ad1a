import ArchiveVfs.Proofs.Archive.Entry
import ArchiveVfs.Proofs.Outcome
import ArchiveVfs.Server.Archives

/-!
# Runs of a server

A run is any sequence of calls that may change a server, each with the disk as it is
then. `turn_after` says all that a call can do to the mounted archives. From it follow,
by induction on the run, what holds of every server (`Sound`) and where its archives
come from: each was loaded by a call of the run and has been in the list since
(`mountedBy_of_mem`).
-/

namespace ArchiveVfs

namespace Mounts

/-- All that a call can do to the archives: leave them, mount one from a file, or take one
out. -/
inductive Turn (disk : Disk) (mounts : Mounts) : Mounts → Prop where
  | kept : Turn disk mounts mounts
  | mounted (archive : Archive) (mountPoint : Uri) (hfile : archive.uri.isFile = true)
      (hout : archive.uri ∉ mounts.archives.map (·.uri))
      (hload : Archive.load disk mounts.maps archive.uri mountPoint = .ok archive) :
      Turn disk mounts { mounts with archives := archive :: mounts.archives }
  | unmounted (uri : Uri) :
      Turn disk mounts { mounts with
        archives := mounts.archives.filter fun archive => archive.uri ≠ uri }

/-- What holds of the archives between two calls. -/
structure Sound (mounts : Mounts) : Prop extends Orderly mounts where
  /-- Archives are mounted from files. -/
  files : ∀ archive ∈ mounts.archives, archive.uri.isFile = true
  /-- No file of an archive has the empty path. -/
  named : ∀ archive ∈ mounts.archives, archive.file? "" = none

variable {mounts next : Mounts} {uri : Uri} {disk : Disk}

/-- A mount that succeeds found no transition begun. -/
theorem idle_of_mount {mountPoint : Uri} (h : mounts.mount disk uri mountPoint = .ok next) :
    mounts.isBusy uri = false := by
  cases hbusy : mounts.isBusy uri with
  | false => rfl
  | true =>
    rw [mount, tryMount, hbusy, Bool.true_or, if_pos rfl] at h
    cases h

/-- All that a mount does when it succeeds: it puts the archive that it loads in front. -/
theorem of_mount {mountPoint : Uri} (hidle : mounts.isBusy uri = false)
    (h : mounts.mount disk uri mountPoint = .ok next) :
    ∃ archive, uri ∉ mounts.archives.map (·.uri) ∧
      Archive.load disk mounts.maps uri mountPoint = .ok archive ∧ archive.uri = uri ∧
      next = { mounts with archives := archive :: mounts.archives } := by
  rw [mount] at h
  rcases tryMount_cases disk mountPoint hidle with
    ⟨_, heq⟩ | ⟨_, fault, _, heq⟩ | ⟨hout, archive, hload, huri, heq⟩
  · rw [heq] at h
    cases h
  · rw [heq] at h
    cases h
  · rw [heq] at h
    exact ⟨archive, hout, hload, huri, (Except.ok.inj h).symm⟩

/-- All that an unmount does when it succeeds: it leaves the others. -/
theorem of_unmount (hidle : mounts.isBusy uri = false) (h : mounts.unmount uri = .ok next) :
    next = { mounts with
      archives := mounts.archives.filter fun archive => archive.uri ≠ uri } := by
  rw [unmount] at h
  rcases tryUnmount_cases hidle with ⟨_, heq⟩ | ⟨_, heq⟩
  · rw [heq] at h
    cases h
  · rw [heq] at h
    exact (Except.ok.inj h).symm

/-- An archive that can be loaded and is not mounted is put in front. -/
theorem mount_of_load {mountPoint : Uri} {archive : Archive} (hidle : mounts.isBusy uri = false)
    (hout : uri ∉ mounts.archives.map (·.uri))
    (hload : Archive.load disk mounts.maps uri mountPoint = .ok archive) :
    mounts.mount disk uri mountPoint
      = .ok { mounts with archives := archive :: mounts.archives } := by
  rw [mount]
  rcases tryMount_cases disk mountPoint hidle with
    ⟨hin, _⟩ | ⟨_, fault, hfault, _⟩ | ⟨_, other, hother, _, heq⟩
  · exact absurd hin hout
  · rw [hload] at hfault
    cases hfault
  · rw [hload] at hother
    obtain rfl := Except.ok.inj hother
    rw [heq]
    rfl

theorem turn_of_mount {mountPoint : Uri} (hidle : mounts.isBusy uri = false)
    (hfile : uri.isFile = true) (h : mounts.mount disk uri mountPoint = .ok next) :
    Turn disk mounts next := by
  obtain ⟨archive, hout, hload, rfl, rfl⟩ := of_mount hidle h
  exact .mounted archive mountPoint hfile hout hload

theorem Turn.sound (hturn : Turn disk mounts next) (h : mounts.Sound) : next.Sound := by
  cases hturn with
  | kept => exact h
  | mounted archive mountPoint hfile hout hload =>
    refine ⟨⟨h.idle, List.nodup_cons.2 ⟨hout, h.distinct⟩⟩, ?_, ?_⟩
    · exact List.forall_mem_cons.2 ⟨hfile, h.files⟩
    · exact List.forall_mem_cons.2 ⟨Archive.file?_empty_of_load hload, h.named⟩
  | unmounted uri =>
    refine ⟨⟨h.idle, h.distinct.sublist (List.filter_sublist.map _)⟩, ?_, ?_⟩
    · intro archive hin
      exact h.files archive (List.mem_filter.1 hin).1
    · intro archive hin
      exact h.named archive (List.mem_filter.1 hin).1

theorem Turn.maps_eq (hturn : Turn disk mounts next) : next.maps = mounts.maps := by
  cases hturn <;> rfl

/-- An archive in the list after a call was there before, or the call mounted it. -/
theorem Turn.mem_archives (hturn : Turn disk mounts next) {archive : Archive}
    (hin : archive ∈ next.archives) :
    archive ∈ mounts.archives ∨
    (archive.uri ∉ mounts.archives.map (·.uri) ∧
      (∃ mountPoint, Archive.load disk mounts.maps archive.uri mountPoint = .ok archive) ∧
      next.archives = archive :: mounts.archives) := by
  cases hturn with
  | kept => exact .inl hin
  | mounted new mountPoint hfile hout hload =>
    rcases List.mem_cons.1 hin with rfl | hin
    · exact .inr ⟨hout, ⟨mountPoint, hload⟩, rfl⟩
    · exact .inl hin
  | unmounted uri => exact .inl (List.mem_filter.1 hin).1

end Mounts

namespace Server

/-- A call that may change a server. -/
inductive Call where
  | setAssign (name location : String)
  | clearAssign (name : String)
  | registerScheme (scheme : String) (kind : StreamKind)
  | unregisterScheme (scheme : String)
  | enableArchives (enabled : Bool)
  | mountArchive (path : String)
  | mountArchiveAt (path mountPoint : String)
  | unmountArchive (path : String)
  /-- Takes an archive out by its URI, behind the server's back. -/
  | unmountUri (uri : Uri)
  | mountStandard
  | unmountStandard

/-- A call with the disk as it is then. -/
structure Moment where
  /-- The disk. -/
  disk : Disk
  /-- The call. -/
  call : Call

/-- What a call makes of a server, if it succeeds. -/
def attempt (server : Server) (moment : Moment) : Except Error Server :=
  match moment.call with
  | .setAssign name location =>
    .ok { server with assigns := server.assigns.insert name location }
  | .clearAssign name => .ok { server with assigns := server.assigns.erase name }
  | .registerScheme scheme kind =>
    (server.schemes.register scheme kind).map fun schemes => { server with schemes }
  | .unregisterScheme scheme =>
    .ok { server with schemes := server.schemes.unregister scheme }
  | .enableArchives enabled => .ok { server with archivesEnabled := enabled }
  | .mountArchive path => server.mountArchive moment.disk path
  | .mountArchiveAt path mountPoint => server.mountArchiveAt moment.disk path mountPoint
  | .unmountArchive path => server.unmountArchive path
  | .unmountUri uri => (server.mounts.unmount uri).map fun mounts => { server with mounts }
  | .mountStandard => server.mountStandard moment.disk
  | .unmountStandard => server.unmountStandard

/-- The server that a call leaves; one that fails leaves it as it was. -/
def after (server : Server) (moment : Moment) : Server :=
  match server.attempt moment with
  | .ok next => next
  | .error _ => server

/-- The server that a run leaves. -/
def run (server : Server) : List Moment → Server
  | [] => server
  | moment :: later => (server.after moment).run later

/-! ## One call -/

section Calls

variable {server next : Server}

/-- The URI of an archive is what the path stands for, and that of a file. -/
theorem of_resolveArchive {path : String} {uri : Uri}
    (h : server.resolveArchive path = .ok uri) :
    server.resolve path = .ok uri ∧ uri.isFile = true := by
  obtain ⟨resolved, hresolve, h⟩ := Outcome.bind_eq_ok.1 h
  by_cases hfile : resolved.isFile = true
  · rw [if_pos hfile] at h
    obtain rfl := Except.ok.inj h
    exact ⟨hresolve, hfile⟩
  · rw [if_neg hfile] at h
    cases h

theorem isFile_of_resolveArchive {path : String} {uri : Uri}
    (h : server.resolveArchive path = .ok uri) : uri.isFile = true :=
  (of_resolveArchive h).2

theorem turn_of_mountUri {disk : Disk} {uri mountPoint : Uri} (horderly : server.mounts.Orderly)
    (hfile : uri.isFile = true) (h : server.mountUri disk uri mountPoint = .ok next) :
    server.mounts.Turn disk next.mounts ∧ next.settings = server.settings := by
  obtain ⟨mounts, hmount, rfl⟩ := Outcome.map_eq_ok.1 h
  exact ⟨Mounts.turn_of_mount (horderly.not_busy uri) hfile hmount, rfl⟩

/-- All that mounting the standard archive does when it succeeds. -/
theorem of_mountStandard {disk : Disk} (h : server.mountStandard disk = .ok next) :
    server.standardMounted = false ∧
    ∃ uri, server.resolveArchive server.standardArchive = .ok uri ∧
      ((disk.fileExists uri.nativePath = true ∧
        ∃ mountPoint mounted, server.resolve "root:" = .ok mountPoint ∧
          server.mountUri disk uri mountPoint = .ok mounted ∧
          next = { mounted with standardMounted := true }) ∨
      (disk.fileExists uri.nativePath = false ∧
        next = { server with standardMounted := true })) := by
  rw [mountStandard] at h
  by_cases htwice : server.standardMounted = true
  · rw [if_pos htwice] at h
    cases h
  · rw [if_neg htwice] at h
    obtain ⟨uri, huri, h⟩ := Outcome.bind_eq_ok.1 h
    refine ⟨(Bool.not_eq_true _).mp htwice, uri, huri, ?_⟩
    by_cases hthere : disk.fileExists uri.nativePath = true
    · rw [if_pos hthere] at h
      obtain ⟨mountPoint, hpoint, h⟩ := Outcome.bind_eq_ok.1 h
      obtain ⟨mounted, hmounted, h⟩ := Outcome.bind_eq_ok.1 h
      exact .inl ⟨hthere, mountPoint, mounted, hpoint, hmounted, (Except.ok.inj h).symm⟩
    · rw [if_neg hthere] at h
      exact .inr ⟨(Bool.not_eq_true _).mp hthere, (Except.ok.inj h).symm⟩

/-- Unmounting the standard archive takes out what the path of the standard archive leads to
then, if it is there. -/
theorem unmountStandard_eq (horderly : server.mounts.Orderly)
    (hflag : server.standardMounted = true) :
    server.unmountStandard = (server.resolveArchive server.standardArchive).map fun uri =>
      { server with
        mounts := { server.mounts with
          archives := server.mounts.archives.filter fun archive => archive.uri ≠ uri }
        standardMounted := false } := by
  rw [unmountStandard, if_pos hflag]
  cases huri : server.resolveArchive server.standardArchive with
  | error error => rfl
  | ok uri =>
    show (if server.mounts.isMounted uri then _ else _) = _
    rcases Mounts.tryUnmount_cases (horderly.not_busy uri) with ⟨hout, _⟩ | ⟨hin, heq⟩
    · -- nothing has the URI, so nothing is left out
      have hall : (server.mounts.archives.filter fun archive => archive.uri ≠ uri)
          = server.mounts.archives := by
        rw [List.filter_eq_self]
        intro archive hin
        exact decide_eq_true fun heq => hout (heq ▸ List.mem_map_of_mem hin)
      rw [if_neg (by rwa [Mounts.isMounted_iff])]
      simp only [hall, Except.map]
      rfl
    · rw [if_pos (Mounts.isMounted_iff.2 hin), Mounts.unmount, heq]
      rfl

/-- All that unmounting the standard archive does when it succeeds. -/
theorem of_unmountStandard (horderly : server.mounts.Orderly)
    (h : server.unmountStandard = .ok next) :
    server.standardMounted = true ∧
    ∃ uri, server.resolveArchive server.standardArchive = .ok uri ∧
      next = { server with
        mounts := { server.mounts with
          archives := server.mounts.archives.filter fun archive => archive.uri ≠ uri }
        standardMounted := false } := by
  by_cases hflag : server.standardMounted = true
  · rw [unmountStandard_eq horderly hflag] at h
    obtain ⟨uri, huri, rfl⟩ := Outcome.map_eq_ok.1 h
    exact ⟨hflag, uri, huri, rfl⟩
  · rw [unmountStandard, if_neg hflag] at h
    cases h

/-- The call asks for the archive of a URI to be taken out. -/
def Call.TakesOut (server : Server) (uri : Uri) : Call → Prop
  | .unmountArchive path => server.resolveArchive path = .ok uri
  | .unmountUri other => other = uri
  | .unmountStandard => server.resolveArchive server.standardArchive = .ok uri
  | _ => False

/-- All that a call that succeeds does to the archives: it leaves them, mounts what a path
stands for, or takes out what it asks for. The settings stay, and so does the flag of the
standard archive where the call is not about that. -/
theorem mounts_of_attempt {moment : Moment} (horderly : server.mounts.Orderly)
    (h : server.attempt moment = .ok next) :
    next.settings = server.settings ∧
      (moment.call ≠ .mountStandard → moment.call ≠ .unmountStandard →
        next.standardMounted = server.standardMounted) ∧
      (next.mounts = server.mounts ∨
      (∃ path uri mountPoint, server.resolveArchive path = .ok uri ∧
        server.mounts.mount moment.disk uri mountPoint = .ok next.mounts) ∨
      ∃ uri, moment.call.TakesOut server uri ∧ next.mounts = { server.mounts with
        archives := server.mounts.archives.filter fun archive => archive.uri ≠ uri }) := by
  obtain ⟨disk, call⟩ := moment
  cases call with
  | setAssign name location =>
    obtain rfl := Except.ok.inj h
    exact ⟨rfl, fun _ _ => rfl, .inl rfl⟩
  | clearAssign name =>
    obtain rfl := Except.ok.inj h
    exact ⟨rfl, fun _ _ => rfl, .inl rfl⟩
  | registerScheme scheme kind =>
    obtain ⟨schemes, _, rfl⟩ := Outcome.map_eq_ok.1 h
    exact ⟨rfl, fun _ _ => rfl, .inl rfl⟩
  | unregisterScheme scheme =>
    obtain rfl := Except.ok.inj h
    exact ⟨rfl, fun _ _ => rfl, .inl rfl⟩
  | enableArchives enabled =>
    obtain rfl := Except.ok.inj h
    exact ⟨rfl, fun _ _ => rfl, .inl rfl⟩
  | mountArchive path =>
    obtain ⟨uri, huri, h⟩ := Outcome.bind_eq_ok.1 h
    obtain ⟨mounts, hmount, rfl⟩ := Outcome.map_eq_ok.1 h
    exact ⟨rfl, fun _ _ => rfl, .inr (.inl ⟨path, uri, _, huri, hmount⟩)⟩
  | mountArchiveAt path mountPoint =>
    obtain ⟨uri, huri, h⟩ := Outcome.bind_eq_ok.1 h
    obtain ⟨point, _, h⟩ := Outcome.bind_eq_ok.1 h
    obtain ⟨mounts, hmount, rfl⟩ := Outcome.map_eq_ok.1 h
    exact ⟨rfl, fun _ _ => rfl, .inr (.inl ⟨path, uri, point, huri, hmount⟩)⟩
  | unmountArchive path =>
    obtain ⟨uri, huri, h⟩ := Outcome.bind_eq_ok.1 h
    obtain ⟨mounts, hunmount, h⟩ := Outcome.bind_eq_ok.1 h
    obtain rfl := Except.ok.inj h
    exact ⟨rfl, fun _ _ => rfl,
      .inr (.inr ⟨uri, huri, Mounts.of_unmount (horderly.not_busy uri) hunmount⟩)⟩
  | unmountUri uri =>
    obtain ⟨mounts, hunmount, rfl⟩ := Outcome.map_eq_ok.1 h
    exact ⟨rfl, fun _ _ => rfl,
      .inr (.inr ⟨uri, rfl, Mounts.of_unmount (horderly.not_busy uri) hunmount⟩)⟩
  | mountStandard =>
    have hflag : Call.mountStandard ≠ .mountStandard → Call.mountStandard ≠ .unmountStandard →
        next.standardMounted = server.standardMounted := fun hother _ => absurd rfl hother
    obtain ⟨_, uri, huri, ⟨_, mountPoint, mounted, _, hmounted, rfl⟩ | ⟨_, rfl⟩⟩ :=
      of_mountStandard h
    · obtain ⟨mounts, hmount, rfl⟩ := Outcome.map_eq_ok.1 hmounted
      exact ⟨rfl, hflag, .inr (.inl ⟨_, uri, mountPoint, huri, hmount⟩)⟩
    · exact ⟨rfl, hflag, .inl rfl⟩
  | unmountStandard =>
    obtain ⟨_, uri, huri, rfl⟩ := of_unmountStandard horderly h
    exact ⟨rfl, fun _ hother => absurd rfl hother, .inr (.inr ⟨uri, huri, rfl⟩)⟩

theorem turn_of_attempt {moment : Moment} (horderly : server.mounts.Orderly)
    (h : server.attempt moment = .ok next) :
    server.mounts.Turn moment.disk next.mounts ∧ next.settings = server.settings := by
  obtain ⟨hsettings, _, hkept | ⟨path, uri, mountPoint, huri, hmount⟩ | ⟨uri, _, hleft⟩⟩ :=
    mounts_of_attempt horderly h
  · rw [hkept]
    exact ⟨.kept, hsettings⟩
  · exact ⟨Mounts.turn_of_mount (horderly.not_busy uri) (isFile_of_resolveArchive huri) hmount,
      hsettings⟩
  · rw [hleft]
    exact ⟨.unmounted uri, hsettings⟩

/-- All that a call does to the archives, whether it succeeds or not. -/
theorem turn_after (horderly : server.mounts.Orderly) (moment : Moment) :
    server.mounts.Turn moment.disk (server.after moment).mounts ∧
      (server.after moment).settings = server.settings := by
  rw [after]
  cases hattempt : server.attempt moment with
  | ok next => exact turn_of_attempt horderly hattempt
  | error error => exact ⟨.kept, rfl⟩

end Calls

/-! ## Whole runs -/

/-- What holds of a server between two calls. -/
structure Sound (server : Server) : Prop where
  /-- The archives are at rest. -/
  mounts : server.mounts.Sound
  /-- Checksums take a byte at a time or more. -/
  buffer : 0 < server.settings.checksumBufferSize.toNat

section Runs

variable {server : Server}

theorem sound_of_build {settings : Settings} {environment : Environment} {equipment : Equipment}
    (h : build settings environment equipment = .ok server) : server.Sound := by
  obtain ⟨_, hvalid, rfl⟩ := Outcome.map_eq_ok.1 h
  refine ⟨⟨⟨rfl, .nil⟩, List.forall_mem_nil _, List.forall_mem_nil _⟩, ?_⟩
  show 0 < settings.checksumBufferSize.toNat
  rw [Nat.pos_iff_ne_zero]
  intro hzero
  have hnone : settings.checksumBufferSize = 0 := UInt64.toNat_inj.1 hzero
  rw [Settings.validate, Settings.fault?, if_pos hnone] at hvalid
  by_cases hcopy : settings.copyBufferSize = 0
  · rw [if_pos hcopy] at hvalid
    cases hvalid
  · rw [if_neg hcopy] at hvalid
    cases hvalid

/-- Every call leaves a sound server. -/
theorem Sound.after (h : server.Sound) (moment : Moment) : (server.after moment).Sound := by
  obtain ⟨hturn, hsettings⟩ := turn_after h.mounts.toOrderly moment
  refine ⟨hturn.sound h.mounts, ?_⟩
  rw [hsettings]
  exact h.buffer

theorem Sound.run (h : server.Sound) (moments : List Moment) : (server.run moments).Sound := by
  induction moments generalizing server with
  | nil => exact h
  | cons moment moments ih => exact ih (h.after moment)

/-- A call of a run mounted the archive: its URI was not in the list before, the
archive is what the disk of that moment gave, it came in front, and it has been in the
list after every later call. -/
structure MountedBy (first : Server) (before : List Moment) (moment : Moment)
    (later : List Moment) (archive : Archive) : Prop where
  absent : archive.uri ∉ (first.run before).mounts.archives.map (·.uri)
  loaded : ∃ mountPoint,
    Archive.load moment.disk first.mounts.maps archive.uri mountPoint = .ok archive
  front : (first.run (before ++ [moment])).mounts.archives
    = archive :: (first.run before).mounts.archives
  stayed : ∀ part, part <+: later →
    archive ∈ (first.run (before ++ moment :: part)).mounts.archives

/-- An archive in the list after a run has been in it all the time, or a call of the run
mounted it. -/
theorem mem_archives_run (h : server.Sound) (moments : List Moment) {archive : Archive}
    (hin : archive ∈ (server.run moments).mounts.archives) :
    (∀ part, part <+: moments → archive ∈ (server.run part).mounts.archives) ∨
    ∃ before moment later, moments = before ++ moment :: later ∧
      MountedBy server before moment later archive := by
  induction moments generalizing server with
  | nil =>
    left
    intro part hpart
    rw [List.prefix_nil.1 hpart]
    exact hin
  | cons moment moments ih =>
    obtain ⟨hturn, _⟩ := turn_after h.mounts.toOrderly moment
    rcases ih (h.after moment) hin with hall | ⟨before, mounting, later, rfl, hmounted⟩
    · -- nothing later mounted it, so this call did or it was there before
      rcases hturn.mem_archives (hall [] List.nil_prefix) with hold | ⟨hout, hload, hfront⟩
      · left
        intro part hpart
        rcases List.prefix_cons_iff.1 hpart with rfl | ⟨rest, rfl, hrest⟩
        · exact hold
        · exact hall rest hrest
      · exact .inr ⟨[], moment, moments, rfl, hout, hload, hfront, hall⟩
    · obtain ⟨mountPoint, hload⟩ := hmounted.loaded
      rw [hturn.maps_eq] at hload
      exact .inr ⟨moment :: before, mounting, later, rfl, hmounted.absent, ⟨mountPoint, hload⟩,
        hmounted.front, hmounted.stayed⟩

/-- A call of the run mounted each archive that a run of a server leaves mounted. -/
theorem mountedBy_of_mem {settings : Settings} {environment : Environment}
    {equipment : Equipment} (hbuild : build settings environment equipment = .ok server)
    (moments : List Moment) {archive : Archive}
    (hin : archive ∈ (server.run moments).mounts.archives) :
    ∃ before moment later, moments = before ++ moment :: later ∧
      MountedBy server before moment later archive := by
  rcases mem_archives_run (sound_of_build hbuild) moments hin with hall | hmounted
  · -- a server is built without archives
    have hnone := hall [] List.nil_prefix
    obtain ⟨_, _, rfl⟩ := Outcome.map_eq_ok.1 hbuild
    cases hnone
  · exact hmounted

/-- So each of them is what some disk gave. -/
theorem load_of_mem {settings : Settings} {environment : Environment} {equipment : Equipment}
    (hbuild : build settings environment equipment = .ok server) (moments : List Moment)
    {archive : Archive} (hin : archive ∈ (server.run moments).mounts.archives) :
    ∃ disk maps mountPoint, Archive.load disk maps archive.uri mountPoint = .ok archive := by
  obtain ⟨_, moment, _, _, hmounted⟩ := mountedBy_of_mem hbuild moments hin
  obtain ⟨mountPoint, hload⟩ := hmounted.loaded
  exact ⟨moment.disk, server.mounts.maps, mountPoint, hload⟩

end Runs

end Server

end ArchiveVfs
