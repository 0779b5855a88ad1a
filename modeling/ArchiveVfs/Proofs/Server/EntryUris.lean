import ArchiveVfs.Proofs.Server.SwitchedOff
import ArchiveVfs.Proofs.Uri.NativePath
import ArchiveVfs.Proofs.Uri.RoundTrip

/-!
# From the URI of an entry back to its archive

The URI of an entry keeps the host, the port and the path of the archive's file, and
names the entry by its path. It leads back to the mounted archive if that was mounted from a
URI with nothing else, and so does its written form if no colon of the host is taken
for that of a port (`entryUri_round_trip`). An archive that was mounted with a query or a
fragment is not found again: its entries are read from the file, as if it were not mounted
(`entryUri_of_query`).
-/

namespace ArchiveVfs

/-! ## Where archives are mounted from -/

namespace Server

variable {server next : Server} {path : String}

theorem readable_of_resolve {uri : Uri} (h : server.resolve path = .ok uri) : uri.Readable := by
  rw [resolve] at h
  obtain ⟨resolved, _, h⟩ := Outcome.bind_eq_ok.1 h
  split at h
  next parsed hparse =>
    obtain rfl := Except.ok.inj h
    exact .of_parse hparse
  next =>
    by_cases hempty : resolved.toList.isEmpty = true
    · rw [if_pos hempty] at h
      cases h
    · rw [if_neg hempty] at h
      obtain rfl := Except.ok.inj h
      exact (Uri.isLocal_ofNativePath _ _).readable

theorem readable_of_resolveArchive {uri : Uri} (h : server.resolveArchive path = .ok uri) :
    uri.Readable :=
  readable_of_resolve (of_resolveArchive h).1

/-- An archive that a call brings was mounted from what a path stands for. -/
theorem resolved_of_attempt {moment : Moment} (horderly : server.mounts.Orderly)
    (h : server.attempt moment = .ok next) {archive : Archive}
    (hin : archive ∈ next.mounts.archives) :
    archive ∈ server.mounts.archives ∨ ∃ path, server.resolveArchive path = .ok archive.uri := by
  obtain ⟨_, _, hkept | ⟨path, uri, mountPoint, huri, hmount⟩ | ⟨uri, _, hleft⟩⟩ :=
    mounts_of_attempt horderly h
  · exact .inl (hkept ▸ hin)
  · obtain ⟨loaded, _, _, hloaded, hfront⟩ := Mounts.of_mount (horderly.not_busy uri) hmount
    rw [hfront] at hin
    rcases List.mem_cons.1 hin with rfl | hin
    · exact .inr ⟨path, by rw [hloaded, huri]⟩
    · exact .inl hin
  · rw [hleft] at hin
    exact .inl (List.mem_filter.1 hin).1

/-- A call leaves the URIs of all archives readable. -/
theorem readable_after (h : server.Sound)
    (hall : ∀ archive ∈ server.mounts.archives, archive.uri.Readable) (moment : Moment) :
    ∀ archive ∈ (server.after moment).mounts.archives, archive.uri.Readable := by
  intro archive hin
  rw [after] at hin
  cases hattempt : server.attempt moment with
  | error error =>
    rw [hattempt] at hin
    exact hall archive hin
  | ok next =>
    rw [hattempt] at hin
    rcases resolved_of_attempt h.mounts.toOrderly hattempt hin with hold | ⟨path, hpath⟩
    · exact hall archive hold
    · exact readable_of_resolveArchive hpath

/-- After every run the URIs of all archives are ones that have been read. -/
theorem readable_run (h : server.Sound)
    (hall : ∀ archive ∈ server.mounts.archives, archive.uri.Readable) (moments : List Moment) :
    ∀ archive ∈ (server.run moments).mounts.archives, archive.uri.Readable := by
  induction moments generalizing server with
  | nil => exact hall
  | cons moment moments ih => exact ih (h.after moment) (readable_after h hall moment)

end Server

/-! ## URIs of entries -/

/-- The files of an archive that was loaded have normal paths, and none is empty. -/
theorem Archive.normal_of_load {disk : Disk} {maps : Bool} {uri mountPoint : Uri}
    {archive : Archive} (h : load disk maps uri mountPoint = .ok archive) {path : String}
    (hthere : (archive.file? path).isSome = true) : EntryPath.normal path = path ∧ path ≠ "" := by
  obtain ⟨_, items, _, _, _, hindex, _⟩ := load_eq_ok h
  rw [file?, hindex, Index.isSome_file?_ofItems] at hthere
  obtain ⟨item, _, _, hnormal, hsome⟩ := hthere
  refine ⟨?_, hsome⟩
  rw [← hnormal, EntryPath.normal_normal]

/-- No colon of the host is taken for that of a port. -/
def Uri.Settled (uri : Uri) : Prop :=
  uri.port = none → ':' ∉ uri.host.toList

/-- There is no more to the URI than where it leads. -/
def Uri.Bare (uri : Uri) : Prop :=
  uri.query = [] ∧ uri.fragment = none

namespace Uri

variable {archive : Uri} {path : String}

theorem readable_entryOf (h : archive.Readable) (path : String) :
    (archive.entryOf path).Readable := by
  have hscheme := scheme_entryOf archive path
  refine ⟨?_, ?_, h.hostChars, h.path⟩
  · rw [hscheme]
    decide
  · rw [hscheme]
    exact List.all_eq_true.1 (by decide)

/-- Of the archive's URI, that of an entry keeps all but the query and the fragment. -/
theorem archiveFile_eq_iff (hfile : archive.isFile = true) :
    (archive.entryOf path).archiveFile = archive ↔ archive.Bare := by
  constructor
  · intro h
    rw [Bare, ← h]
    exact ⟨rfl, rfl⟩
  · rintro ⟨hquery, hfragment⟩
    exact archiveFile_entryOf path hfile hquery hfragment

/-- What is read from the written form keeps everything but the authority, and a host that is
not kept has become shorter. -/
theorem of_parse_render {uri read : Uri} (h : uri.Readable) (hread : parse uri.render = .ok read) :
    read.query = uri.query ∧
      (read = uri ∨ (¬ uri.Settled ∧ read.host.toList.length < uri.host.toList.length)) := by
  by_cases hsettled : uri.Settled
  · have hsame : parse uri.render = .ok uri := Printable.parse_render ⟨h, hsettled⟩
    rw [hsame] at hread
    obtain rfl := Except.ok.inj hread
    exact ⟨rfl, .inl rfl⟩
  · have hboth := hsettled
    rw [Settled, Classical.not_imp, Decidable.not_not] at hboth
    obtain ⟨hport, hcolon⟩ := hboth
    have hauthority : uri.hasAuthority = true :=
      hasAuthority_iff.2 (.inl fun hempty => by simp [hempty] at hcolon)
    rw [h.parse_render_authority hauthority, hport, portChars, List.append_nil] at hread
    obtain ⟨⟨host, port⟩, hparts, rfl⟩ := Outcome.map_eq_ok.1 hread
    refine ⟨rfl, .inr ⟨hsettled, ?_⟩⟩
    rw [String.toList_ofList]
    exact (of_readAuthority hparts).2 hcolon

end Uri

namespace Server

/-- A URI names an entry of a mounted archive: it finds the archive in the list, by the
URI that this was mounted from, and a stream over it opens the entry there. -/
structure LeadsBack (mounts : Mounts) (uri : Uri) (archive : Archive) (path : String) : Prop where
  entryPath : EntryStream.entryPath? uri = some path
  archiveFile : uri.archiveFile = archive.uri
  found : mounts.find? uri.archiveFile = some archive
  tryOpen : ∀ disk, ({ uri } : EntryStream).tryOpen mounts disk
    = (archive.openEntry disk path none).map fun reader =>
      { uri, reader := some reader, size := reader.size }

/-- After any run, the URI of each file of each mounted archive names the file, and leads
back to the archive exactly if this was mounted from a bare URI. The written form
is read as the same URI exactly if the host is settled, and whatever is read from it
names the same file, but leads back to the archive only then. -/
theorem entryUri_round_trip {settings : Settings} {environment : Environment}
    {equipment : Equipment} {first : Server}
    (hbuild : build settings environment equipment = .ok first) (moments : List Moment)
    {archive : Archive} (hin : archive ∈ (first.run moments).mounts.archives) {path : String}
    (hthere : (archive.file? path).isSome = true) :
    EntryStream.entryPath? (archive.entryUri path) = some path ∧
    ((archive.entryUri path).archiveFile = archive.uri ↔ archive.uri.Bare) ∧
    (archive.uri.Bare →
      LeadsBack (first.run moments).mounts (archive.entryUri path) archive path) ∧
    (¬ archive.uri.Bare →
      (first.run moments).mounts.find? (archive.entryUri path).archiveFile ≠ some archive) ∧
    (Uri.parse (archive.entryUri path).render = .ok (archive.entryUri path)
      ↔ archive.uri.Settled) ∧
    (∀ read, Uri.parse (archive.entryUri path).render = .ok read →
      EntryStream.entryPath? read = some path ∧
      (archive.uri.Bare ∧ archive.uri.Settled →
        LeadsBack (first.run moments).mounts read archive path) ∧
      (¬ (archive.uri.Bare ∧ archive.uri.Settled) →
        (first.run moments).mounts.find? read.archiveFile ≠ some archive)) := by
  have hsound := (sound_of_build hbuild).run moments
  have hfile := hsound.mounts.files archive hin
  have hreadable : archive.uri.Readable := by
    refine readable_run (sound_of_build hbuild) ?_ moments archive hin
    obtain ⟨_, _, rfl⟩ := Outcome.map_eq_ok.1 hbuild
    exact List.forall_mem_nil _
  obtain ⟨_, _, _, hload⟩ := load_of_mem hbuild moments hin
  obtain ⟨hnormal, hsome⟩ := Archive.normal_of_load hload hthere
  have hpath (read : Uri) (hquery : read.query = (archive.entryUri path).query) :
      EntryStream.entryPath? read = some path := by
    have hvalue : read.queryValue Uri.entryKey = some path := by
      rw [Uri.queryValue, hquery]
      exact Uri.queryValue_entryOf archive.uri path
    have hnil : path.toList ≠ [] := fun hnil => hsome (String.toList_inj.1 hnil)
    simp [EntryStream.entryPath?, hvalue, hnormal, hnil]
  -- an archive is found by its own URI alone
  have hother (read : Uri) (hne : read.archiveFile ≠ archive.uri) :
      (first.run moments).mounts.find? read.archiveFile ≠ some archive := by
    intro hfound
    exact hne ((hsound.mounts.shows.find _ _).1 hfound).2.symm
  have hback (hbare : archive.uri.Bare) :
      LeadsBack (first.run moments).mounts (archive.entryUri path) archive path := by
    have harchive : (archive.entryUri path).archiveFile = archive.uri :=
      (Uri.archiveFile_eq_iff hfile).2 hbare
    refine ⟨hpath _ rfl, harchive, ?_, fun disk => EntryStream.tryOpen_mounted disk
      hsound.mounts.toOrderly hin hfile hbare.1 hbare.2 hnormal hsome⟩
    exact (hsound.mounts.shows.find _ _).2 ⟨hin, harchive.symm⟩
  have hentry := Uri.readable_entryOf hreadable path
  refine ⟨hpath _ rfl, Uri.archiveFile_eq_iff hfile, hback, ?_, ?_, ?_⟩
  · exact fun hnot => hother _ fun heq => hnot ((Uri.archiveFile_eq_iff hfile).1 heq)
  · exact ⟨hentry.hostColon, fun hsettled => Uri.Printable.parse_render ⟨hentry, hsettled⟩⟩
  · intro read hread
    obtain ⟨hquery, hauthority⟩ := Uri.of_parse_render hentry hread
    refine ⟨hpath read hquery, ?_, ?_⟩
    · rintro ⟨hbare, hsettled⟩
      rcases hauthority with rfl | ⟨hunsettled, _⟩
      · exact hback hbare
      · exact absurd hsettled hunsettled
    · intro hnot
      refine hother read fun heq => ?_
      rcases hauthority with rfl | ⟨_, hshort⟩
      · have hbare := (Uri.archiveFile_eq_iff hfile).1 heq
        exact hnot ⟨hbare, hentry.hostColon hread⟩
      · -- the archive of what was read has the shorter host
        have hlonger : read.archiveFile.host.toList.length < archive.uri.host.toList.length :=
          hshort
        rw [heq] at hlonger
        exact Nat.lt_irrefl _ hlonger

/-- The URI of the file of the small container leads back, and so does its written
form. -/
theorem entryUri_round_trip_small :
    LeadsBack (smallServer.run [mounting]).mounts (smallArchive.entryUri "k") smallArchive "k" ∧
    ∃ read, Uri.parse (smallArchive.entryUri "k").render = .ok read ∧
      LeadsBack (smallServer.run [mounting]).mounts read smallArchive "k" := by
  have hbuild : build {} smallServer.environment { standardAssigns := false } = .ok smallServer :=
    rfl
  have hin : smallArchive ∈ (smallServer.run [mounting]).mounts.archives := by
    rw [run_mounting]
    exact List.mem_cons_self
  have hbare : smallArchive.uri.Bare := ⟨rfl, rfl⟩
  have hsettled : smallArchive.uri.Settled := fun _ => by decide
  obtain ⟨_, _, hbuilt, _, hwritten, hread⟩ :=
    entryUri_round_trip hbuild [mounting] hin holds_small.2
  exact ⟨hbuilt hbare, _, hwritten.2 hsettled,
    (hread _ (hwritten.2 hsettled)).2.1 ⟨hbare, hsettled⟩⟩

/-! ## A query on the URI of an archive -/

/-- A URI of the small container's file with a query. -/
def queriedUri : Uri :=
  { rootFile "/t.zip" with query := [("x", "1")] }

/-- Mounts the small container from it. -/
def mountingQueried : Moment where
  disk := smallDisk smallContainer
  call := .mountArchive "file:///t.zip?x=1"

/-- The small container, mounted from it. -/
def queriedArchive : Archive :=
  { smallArchive with uri := queriedUri }

theorem run_mountingQueried : smallServer.run [mountingQueried]
    = { smallServer with mounts := { archives := [queriedArchive] } } := by
  have huri : smallServer.resolveArchive "file:///t.zip?x=1" = .ok queriedUri := by decide +kernel
  have hload : Archive.load mountingQueried.disk true queriedUri (queriedUri.parent.getD queriedUri)
      = .ok queriedArchive := by
    have hpoint : String.ofList (Text.dropTrailing '/'
        (queriedUri.parent.getD queriedUri).localPath.toList) = "" := by decide
    refine (load_smallContainer (by decide) _).trans ?_
    rw [hpoint]
    rfl
  apply run_of_attempt
  show (smallServer.resolveArchive "file:///t.zip?x=1" >>= fun uri =>
    smallServer.mountUri mountingQueried.disk uri (uri.parent.getD uri)) = _
  rw [huri, Outcome.ok_bind]
  exact mountUri_smallServer hload

/-- The URI of the entry leads to the same file, but to no mounted archive: once the file
is gone, the entry of the archive that is still mounted cannot be opened. -/
theorem entryUri_of_query :
    build {} smallServer.environment { standardAssigns := false } = .ok smallServer ∧
    (smallServer.run [mountingQueried]).mounts.archives = [queriedArchive] ∧
    (queriedArchive.file? "k").isSome = true ∧
    (queriedArchive.entryUri "k").archiveFile = rootFile "/t.zip" ∧
    rootFile "/t.zip" ≠ queriedArchive.uri ∧
    (smallServer.run [mountingQueried]).mounts.find? (rootFile "/t.zip") = none ∧
    queriedArchive.readEntry goneDisk "k" = .ok [107] ∧
    (smallServer.run [mountingQueried]).target (rootFile "/k") true = queriedArchive.entryUri "k" ∧
    ({ uri := queriedArchive.entryUri "k" } : EntryStream).tryOpen
        (smallServer.run [mountingQueried]).mounts goneDisk
      = .error (.badArchive (rootFile "/t.zip") (.system .notFound)) := by
  rw [run_mountingQueried]
  have hpath : EntryStream.entryPath? (queriedArchive.entryUri "k") = some "k" := by
    decide
  have hfile : (queriedArchive.entryUri "k").archiveFile = rootFile "/t.zip" := by
    decide
  have hfind : ({ archives := [queriedArchive] } : Mounts).find? (rootFile "/t.zip") = none := by
    decide
  exact ⟨rfl, rfl, by decide, hfile, by decide, hfind, by decide,
    by decide, tryOpen_goneDisk hpath hfile hfind⟩

end Server

end ArchiveVfs
