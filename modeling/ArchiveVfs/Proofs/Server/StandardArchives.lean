import ArchiveVfs.Proofs.Server.Histories
import ArchiveVfs.Proofs.Server.Precedence

/-!
# The standard archive

Mounting and unmounting the standard archive take turns (`Sound.isChain_brackets`), and one
that fails leaves the server as it was, though the registry may have begun a transition by
then (`tryMountStandard_eq`). What is taken out in the end is not what was mounted but what
the path of the standard archive leads to then: `standard_archives_bracket` says that the two
are the same exactly if the assigns still lead there.
-/

namespace ArchiveVfs.Server

variable {server next : Server} {event : Event}

/-! ## One event -/

/-- A call about the standard archive: it is mounted or unmounted. -/
inductive Bracket where
  | opens
  | closes
  deriving DecidableEq

/-- The bracket that an event is if it succeeds. -/
def Event.bracket? : Event → Option Bracket
  | call ⟨_, .mountStandard⟩ => some .opens
  | call ⟨_, .unmountStandard⟩ => some .closes
  | _ => none

/-- The call that a bracket is. -/
def Bracket.call : Bracket → Call
  | opens => .mountStandard
  | closes => .unmountStandard

theorem Event.eq_of_bracket {bracket : Bracket} (h : event.bracket? = some bracket) :
    ∃ disk, event = call ⟨disk, bracket.call⟩ := by
  cases event with
  | mountUri => cases h
  | call moment =>
    obtain ⟨disk, call⟩ := moment
    refine ⟨disk, ?_⟩
    cases call with
    | mountStandard =>
      obtain rfl := Option.some.inj h
      rfl
    | unmountStandard =>
      obtain rfl := Option.some.inj h
      rfl
    | _ => cases h

/-- The event asks by name for an archive to be taken out. -/
def TakesOut (server : Server) (uri : Uri) : Event → Prop
  | .call ⟨_, .unmountArchive path⟩ => server.resolveArchive path = .ok uri
  | .call ⟨_, .unmountUri other⟩ => other = uri
  | _ => False

/-- What an event leaves that is no bracket: the flag, and all that was mounted but what the
event asks to be taken out. -/
structure Leaves (server : Server) (event : Event) (next : Server) : Prop where
  flag : next.standardMounted = server.standardMounted
  archives : server.mounts.archives <:+ next.mounts.archives ∨
    ∃ uri, server.TakesOut uri event ∧ next.mounts.archives
      = server.mounts.archives.filter fun archive => archive.uri ≠ uri

theorem suffix_of_mountUri (horderly : server.mounts.Orderly) {disk : Disk}
    {uri mountPoint : Uri} (h : server.mountUri disk uri mountPoint = .ok next) :
    next.standardMounted = server.standardMounted ∧
      server.mounts.archives <:+ next.mounts.archives := by
  obtain ⟨mounts, hmount, rfl⟩ := Outcome.map_eq_ok.1 h
  obtain ⟨archive, _, _, _, rfl⟩ := Mounts.of_mount (horderly.not_busy uri) hmount
  exact ⟨rfl, List.suffix_cons archive server.mounts.archives⟩

/-- What a call takes out that is no bracket, it asks for by name. -/
theorem TakesOut.ofCall {moment : Moment} {uri : Uri}
    (hnone : (Event.call moment).bracket? = none) (h : moment.call.TakesOut server uri) :
    server.TakesOut uri (.call moment) := by
  obtain ⟨disk, call⟩ := moment
  cases call with
  | unmountArchive path => exact h
  | unmountUri other => exact h
  | unmountStandard => cases hnone
  | _ => cases h

theorem leaves_of_event (horderly : server.mounts.Orderly) (hnone : event.bracket? = none)
    (h : server.tryEvent event = .ok next) : server.Leaves event next := by
  cases event with
  | mountUri disk uri mountPoint hfile =>
    obtain ⟨hflag, hkept⟩ := suffix_of_mountUri horderly h
    exact ⟨hflag, .inl hkept⟩
  | call moment =>
    obtain ⟨_, hflag, hmounts⟩ := mounts_of_attempt horderly h
    refine ⟨hflag ?_ ?_, ?_⟩
    · intro hopens
      obtain ⟨disk, call⟩ := moment
      cases hopens
      cases hnone
    · intro hcloses
      obtain ⟨disk, call⟩ := moment
      cases hcloses
      cases hnone
    · rcases hmounts with hkept | ⟨path, uri, mountPoint, huri, hmount⟩ | ⟨uri, htakes, hleft⟩
      · exact .inl (by rw [hkept])
      · obtain ⟨archive, _, _, _, hfront⟩ := Mounts.of_mount (horderly.not_busy uri) hmount
        exact .inl (by rw [hfront]; exact List.suffix_cons archive server.mounts.archives)
      · exact .inr ⟨uri, .ofCall hnone htakes, by rw [hleft]⟩

/-! ## Taking turns -/

/-- The brackets of a history that succeed, in order. -/
def brackets (server : Server) : List Event → List Bracket
  | [] => []
  | event :: later =>
    match server.tryEvent event, event.bracket? with
    | .ok next, some bracket => bracket :: next.brackets later
    | .ok next, none => next.brackets later
    | .error _, _ => server.brackets later

/-- No bracket comes twice in a row, and the first one opens. -/
def TakeTurns (brackets : List Bracket) : Prop :=
  (Bracket.closes :: brackets).IsChain (· ≠ ·)

/-- The bracket that a server has behind it. -/
def lastBracket (server : Server) : Bracket :=
  if server.standardMounted then .opens else .closes

/-- A bracket that succeeds is not the one before it. -/
theorem lastBracket_of_event {bracket : Bracket} (horderly : server.mounts.Orderly)
    (hbracket : event.bracket? = some bracket) (h : server.tryEvent event = .ok next) :
    server.lastBracket ≠ bracket ∧ next.lastBracket = bracket := by
  obtain ⟨disk, rfl⟩ := Event.eq_of_bracket hbracket
  cases bracket with
  | opens =>
    obtain ⟨hflag, uri, _, ⟨_, mountPoint, mounted, _, _, rfl⟩ | ⟨_, rfl⟩⟩ := of_mountStandard h
    all_goals simp [lastBracket, hflag]
  | closes =>
    obtain ⟨hflag, uri, _, rfl⟩ := of_unmountStandard horderly h
    simp [lastBracket, hflag]

theorem Sound.isChain_brackets (h : server.Sound) (events : List Event) :
    (server.lastBracket :: server.brackets events).IsChain (· ≠ ·) := by
  -- each server of the history carries the bracket that the next one must differ from
  induction events generalizing server with
  | nil => exact .singleton _
  | cons event events ih =>
    rw [brackets]
    cases hevent : server.tryEvent event with
    | error error => exact ih h
    | ok next =>
      have hnext : next.Sound := by
        rw [← afterEvent_of_ok hevent]
        exact h.afterEvent event
      cases hbracket : event.bracket? with
      | none =>
        have hlast : next.lastBracket = server.lastBracket := by
          rw [lastBracket, lastBracket, (leaves_of_event h.mounts.toOrderly hbracket hevent).flag]
        rw [← hlast]
        exact ih hnext
      | some bracket =>
        obtain ⟨hother, hlast⟩ := lastBracket_of_event h.mounts.toOrderly hbracket hevent
        have hlater := ih hnext
        rw [hlast] at hlater
        exact .cons_cons hother hlater

/-! ## Calls that fail -/

/-- Mounts the standard archive, and the server that is left even if that fails midway. -/
def tryMountStandard (server : Server) (disk : Disk) : Except Error Unit × Server :=
  if server.standardMounted then (.error .standardArchivesMounted, server)
  else
    match server.resolveArchive server.standardArchive with
    | .error error => (.error error, server)
    | .ok uri =>
      if disk.fileExists uri.nativePath then
        match server.resolve "root:" with
        | .error error => (.error error, server)
        | .ok mountPoint =>
          match server.mounts.tryMount disk uri mountPoint with
          | (.error error, mounts) => (.error error, { server with mounts })
          | (.ok _, mounts) => (.ok (), { server with mounts, standardMounted := true })
      else (.ok (), { server with standardMounted := true })

/-- Unmounts the standard archive, and the server that is left even if that fails midway. -/
def tryUnmountStandard (server : Server) : Except Error Unit × Server :=
  if server.standardMounted then
    match server.resolveArchive server.standardArchive with
    | .error error => (.error error, server)
    | .ok uri =>
      if server.mounts.isMounted uri then
        match server.mounts.tryUnmount uri with
        | (.error error, mounts) => (.error error, { server with mounts })
        | (.ok _, mounts) => (.ok (), { server with mounts, standardMounted := false })
      else (.ok (), { server with standardMounted := false })
  else (.error .standardArchivesNotMounted, server)

/-- A call with the server that it leaves, if a call that fails leaves it as it was. -/
def settled (server : Server) : Except Error Server → Except Error Unit × Server
  | .ok next => (.ok (), next)
  | .error error => (.error error, server)

/-- The transition that a mount begins is over when the mount has failed. -/
theorem tryMountStandard_eq (horderly : server.mounts.Orderly) (disk : Disk) :
    server.tryMountStandard disk = server.settled (server.mountStandard disk) := by
  rw [tryMountStandard, mountStandard]
  by_cases hflag : server.standardMounted = true
  · rw [if_pos hflag, if_pos hflag]
    rfl
  · rw [if_neg hflag, if_neg hflag]
    cases huri : server.resolveArchive server.standardArchive with
    | error error => rfl
    | ok uri =>
      rw [Outcome.ok_bind]
      by_cases hthere : disk.fileExists uri.nativePath = true
      · simp only [if_pos hthere]
        cases hpoint : server.resolve "root:" with
        | error error => rfl
        | ok mountPoint =>
          simp only [Outcome.ok_bind, mountUri, Mounts.mount]
          -- refused, not loaded or mounted: no transition is left in any case
          rcases Mounts.tryMount_cases disk mountPoint (horderly.not_busy uri) with
            ⟨_, heq⟩ | ⟨_, fault, _, heq⟩ | ⟨_, archive, _, _, heq⟩
          all_goals
            rw [heq]
            rfl
      · simp only [if_neg hthere]
        rfl

theorem tryUnmountStandard_eq (horderly : server.mounts.Orderly) :
    server.tryUnmountStandard = server.settled server.unmountStandard := by
  rw [tryUnmountStandard, unmountStandard]
  by_cases hflag : server.standardMounted = true
  · rw [if_pos hflag, if_pos hflag]
    cases huri : server.resolveArchive server.standardArchive with
    | error error => rfl
    | ok uri =>
      show _ = server.settled (if server.mounts.isMounted uri then _ else _)
      by_cases hmounted : server.mounts.isMounted uri = true
      · simp only [if_pos hmounted, Mounts.unmount]
        rcases Mounts.tryUnmount_cases (horderly.not_busy uri) with ⟨_, heq⟩ | ⟨_, heq⟩
        all_goals
          rw [heq]
          rfl
      · simp only [if_neg hmounted]
        rfl
  · rw [if_neg hflag, if_neg hflag]
    rfl

/-! ## Between two brackets -/

/-- Nothing in a history asks for the archive to be taken out, and no bracket closes. -/
def Spares (server : Server) (uri : Uri) : List Event → Prop
  | [] => True
  | event :: later =>
    ¬ server.TakesOut uri event ∧
    (event.bracket? = some .closes → ∃ error, server.tryEvent event = .error error) ∧
    (server.afterEvent event).Spares uri later

/-- An archive that an event spares stays mounted. -/
theorem mem_archives_of_event (horderly : server.mounts.Orderly) {archive : Archive}
    (hin : archive ∈ server.mounts.archives) (hkept : ¬ server.TakesOut archive.uri event)
    (hopen : event.bracket? ≠ some .closes) (h : server.tryEvent event = .ok next) :
    archive ∈ next.mounts.archives := by
  cases hbracket : event.bracket? with
  | none =>
    rcases (leaves_of_event horderly hbracket h).archives with hall | ⟨uri, hout, hleft⟩
    · exact hall.subset hin
    · rw [hleft, List.mem_filter, decide_eq_true_eq]
      refine ⟨hin, ?_⟩
      rintro rfl
      exact hkept hout
  | some bracket =>
    obtain ⟨disk, rfl⟩ := Event.eq_of_bracket hbracket
    cases bracket with
    | closes => exact absurd hbracket hopen
    | opens =>
      obtain ⟨_, uri, _, ⟨_, mountPoint, mounted, _, hmounted, rfl⟩ | ⟨_, rfl⟩⟩ :=
        of_mountStandard h
      · have hall := (suffix_of_mountUri horderly hmounted).2
        exact hall.subset hin
      · exact hin

/-- An archive that a history spares stays mounted. -/
theorem Sound.mem_archives_of_spares (h : server.Sound) {archive : Archive}
    (hin : archive ∈ server.mounts.archives) {events : List Event}
    (hspares : server.Spares archive.uri events) :
    archive ∈ (server.afterAll events).mounts.archives := by
  induction events generalizing server with
  | nil => exact hin
  | cons event events ih =>
    obtain ⟨hkept, hopen, hlater⟩ := hspares
    refine ih (h.afterEvent event) ?_ hlater
    cases hevent : server.tryEvent event with
    | error error =>
      rw [afterEvent_of_error hevent]
      exact hin
    | ok next =>
      rw [afterEvent_of_ok hevent]
      refine mem_archives_of_event h.mounts.toOrderly hin hkept ?_ hevent
      intro hcloses
      obtain ⟨error, hfailed⟩ := hopen hcloses
      rw [hfailed] at hevent
      cases hevent

/-! ## Every history -/

/-- The two calls take turns, and one that fails leaves the server as it was. Between them an
archive that was mounted stays unless it is taken out by name; in the end what the path of
the standard archive leads to then is taken out, which is the archive exactly if the path
still leads to it. -/
theorem standard_archives_bracket {settings : Settings} {environment : Environment}
    {equipment : Equipment} {first : Server}
    (hbuild : build settings environment equipment = .ok first) :
    (∀ events, TakeTurns (first.brackets events)) ∧
    (∀ events disk error,
      ((first.afterAll events).mountStandard disk = .error error →
        (first.afterAll events).tryMountStandard disk = (.error error, first.afterAll events)) ∧
      ((first.afterAll events).unmountStandard = .error error →
        (first.afterAll events).tryUnmountStandard = (.error error, first.afterAll events))) ∧
    (∀ before disk archive between opened closed,
      (first.afterAll before).mountStandard disk = .ok opened →
      opened.mounts.archives = archive :: (first.afterAll before).mounts.archives →
      opened.Spares archive.uri between →
      (opened.afterAll between).unmountStandard = .ok closed →
      archive ∈ (opened.afterAll between).mounts.archives ∧
      ∃ uri, (opened.afterAll between).resolveArchive (opened.afterAll between).standardArchive
          = .ok uri ∧
        closed.mounts.archives = (opened.afterAll between).mounts.archives.filter
          (fun other => other.uri ≠ uri) ∧
        (closed.mounts.archives = (opened.afterAll between).mounts.archives.filter
          (fun other => other.uri ≠ archive.uri) ↔ uri = archive.uri)) := by
  have hfirst := sound_of_build hbuild
  refine ⟨?_, ?_, ?_⟩
  · intro events
    have hchain := hfirst.isChain_brackets events
    have hclosed : first.lastBracket = .closes := by
      obtain ⟨_, _, rfl⟩ := Outcome.map_eq_ok.1 hbuild
      rfl
    rw [hclosed] at hchain
    exact hchain
  · intro events disk error
    have horderly := (hfirst.afterAll events).mounts.toOrderly
    constructor
    · intro hfailed
      rw [tryMountStandard_eq horderly, hfailed]
      rfl
    · intro hfailed
      rw [tryUnmountStandard_eq horderly, hfailed]
      rfl
  · intro before disk archive between opened closed hopened hfront hspares hclosed
    have hsound : opened.Sound := by
      have hevent : (first.afterAll before).tryEvent (.call ⟨disk, .mountStandard⟩) = .ok opened :=
        hopened
      rw [← afterEvent_of_ok hevent]
      exact (hfirst.afterAll before).afterEvent _
    have hstays : archive ∈ (opened.afterAll between).mounts.archives := by
      refine hsound.mem_archives_of_spares ?_ hspares
      rw [hfront]
      exact List.mem_cons_self
    obtain ⟨_, uri, huri, rfl⟩ :=
      of_unmountStandard (hsound.afterAll between).mounts.toOrderly hclosed
    refine ⟨hstays, uri, huri, rfl, ?_, ?_⟩
    · -- the archive is not among those that are left, so it was taken out
      intro hleft
      by_contra hother
      have hin : archive ∈ (opened.afterAll between).mounts.archives.filter
          fun other => other.uri ≠ uri :=
        List.mem_filter.2 ⟨hstays, decide_eq_true fun heq => hother heq.symm⟩
      rw [show (opened.afterAll between).mounts.archives.filter _ = _ from hleft] at hin
      exact of_decide_eq_true (List.mem_filter.1 hin).2 rfl
    · rintro rfl
      rfl

/-- A disk with the container under the name of the standard archive. -/
def linuxDisk : Disk where
  nodes := #[{ content := .directory (Table.empty.insert "export_linux.zip" 1) Disk.root },
    { content := .file smallContainer }]

/-- A server with the standard assigns. -/
def linuxServer : Server where
  settings := {}
  environment := smallServer.environment
  assigns := Assigns.withStandard .empty smallServer.environment "/"
  schemes := .standard

/-- The standard archive. -/
def linuxArchive : Archive :=
  { smallArchive with uri := rootFile "/export_linux.zip" }

/-- The server with the standard archive mounted. -/
def linuxOpened : Server :=
  { linuxServer with mounts := { archives := [linuxArchive] }, standardMounted := true }

theorem mountStandard_linux : linuxServer.mountStandard linuxDisk = .ok linuxOpened := by
  have huri : linuxServer.resolveArchive linuxServer.standardArchive
      = .ok (rootFile "/export_linux.zip") := by decide +kernel
  have hpath : (rootFile "/export_linux.zip").nativePath = "/export_linux.zip" := by
    decide
  have hlocate : linuxDisk.locate "/export_linux.zip" = .ok 1 := by
    have hroute : Disk.Route.ofPath "/export_linux.zip"
        = .ok { fromRoot := true, names := ["export_linux.zip"], slashed := false } := by
      decide
    have hname : (Table.empty.insert "export_linux.zip" 1).get? "export_linux.zip" = some 1 := by
      decide
    exact Disk.locate_name hroute rfl (by decide) hname rfl (by nofun)
  have hthere : linuxDisk.fileExists (rootFile "/export_linux.zip").nativePath = true := by
    rw [hpath, Disk.fileExists, hlocate]
    rfl
  have hroot : linuxServer.resolve "root:" = .ok (rootFile "/") := by decide +kernel
  have hload : Archive.load linuxDisk true (rootFile "/export_linux.zip") (rootFile "/")
      = .ok linuxArchive := by
    have hdata : Archive.loadData linuxDisk true 1 = .ok (.mapped 1 101) := by decide
    have hbytes : linuxDisk.view 1 101 = smallContainer := by decide +kernel
    have hpoint : String.ofList (Text.dropTrailing '/' (rootFile "/").localPath.toList) = "" := by
      decide
    obtain ⟨items, hitems⟩ := items_smallContainer
    rw [Archive.load_of_items (by rw [hpath, hlocate]) hdata
      (by rw [ArchiveData.bytes, hbytes, hitems]), linuxArchive, smallArchive, hitems, hpoint]
  have hmount : linuxServer.mounts.mount linuxDisk (rootFile "/export_linux.zip") (rootFile "/")
      = .ok { archives := [linuxArchive] } :=
    Mounts.mount_of_load rfl List.not_mem_nil hload
  rw [mountStandard, if_neg (by decide), huri, Outcome.ok_bind, if_pos hthere, hroot,
    Outcome.ok_bind, mountUri, hmount]
  rfl

/-- Where the path of the standard archive leads somewhere, unmounting it succeeds. -/
theorem unmountStandard_of_resolve (horderly : server.mounts.Orderly)
    (hflag : server.standardMounted = true) {uri : Uri}
    (huri : server.resolveArchive server.standardArchive = .ok uri) :
    ∃ closed, server.unmountStandard = .ok closed ∧ closed.standardMounted = false ∧
      closed.mounts.archives = server.mounts.archives.filter fun archive => archive.uri ≠ uri := by
  have hclosed := unmountStandard_eq horderly hflag
  rw [huri] at hclosed
  exact ⟨_, hclosed, rfl, rfl⟩

/-- Switches archives off. -/
def switchingOff : Event :=
  .call ⟨linuxDisk, .enableArchives false⟩

/-- With archives switched off in between, the standard archive is taken out again. -/
theorem standard_archives_bracket_linux :
    build {} smallServer.environment = .ok linuxServer ∧
    linuxServer.mountStandard linuxDisk = .ok linuxOpened ∧
    linuxOpened.mounts.archives = [linuxArchive] ∧
    ∃ closed, (linuxOpened.afterAll [switchingOff]).unmountStandard = .ok closed ∧
      closed.mounts.archives = [] := by
  have hbuild : build {} smallServer.environment = .ok linuxServer := rfl
  have hmounted : (linuxOpened.afterAll [switchingOff]).mounts.archives = [linuxArchive] := rfl
  have huri : (linuxOpened.afterAll [switchingOff]).resolveArchive
      (linuxOpened.afterAll [switchingOff]).standardArchive
        = .ok (rootFile "/export_linux.zip") := by decide +kernel
  obtain ⟨closed, hclosed, _, _⟩ := unmountStandard_of_resolve
    (show (linuxOpened.afterAll [switchingOff]).mounts.Orderly from ⟨rfl, List.nodup_singleton _⟩)
    rfl huri
  obtain ⟨_, uri, hthen, _, hleft⟩ := (standard_archives_bracket hbuild).2.2 [] linuxDisk
    linuxArchive [switchingOff] linuxOpened closed mountStandard_linux rfl
    ⟨nofun, nofun, trivial⟩ hclosed
  have hsame : uri = linuxArchive.uri := Except.ok.inj (hthen.symm.trans huri)
  refine ⟨hbuild, mountStandard_linux, rfl, closed, hclosed, ?_⟩
  rw [hleft.2 hsame, hmounted]
  simp

/-- Moves the root elsewhere. -/
def movingRoot : Event :=
  .call ⟨linuxDisk, .setAssign "root" "file:///other/"⟩

/-- When the root has been moved, unmounting the standard archive succeeds and leaves it
mounted. -/
theorem standard_archives_moved_root :
    build {} smallServer.environment = .ok linuxServer ∧
    linuxServer.mountStandard linuxDisk = .ok linuxOpened ∧
    linuxOpened.mounts.archives = [linuxArchive] ∧
    linuxOpened.Spares linuxArchive.uri [movingRoot] ∧
    ∃ closed, (linuxOpened.afterAll [movingRoot]).unmountStandard = .ok closed ∧
      closed.standardMounted = false ∧ closed.mounts.archives = [linuxArchive] := by
  have hmounted : (linuxOpened.afterAll [movingRoot]).mounts.archives = [linuxArchive] := rfl
  have huri : (linuxOpened.afterAll [movingRoot]).resolveArchive
      (linuxOpened.afterAll [movingRoot]).standardArchive
        = .ok (rootFile "/other/export_linux.zip") := by decide +kernel
  obtain ⟨closed, hclosed, hflag, hleft⟩ := unmountStandard_of_resolve
    (show (linuxOpened.afterAll [movingRoot]).mounts.Orderly from ⟨rfl, List.nodup_singleton _⟩)
    rfl huri
  refine ⟨rfl, mountStandard_linux, rfl, ⟨nofun, nofun, trivial⟩, closed, hclosed, hflag, ?_⟩
  have hother : linuxArchive.uri ≠ rootFile "/other/export_linux.zip" := by decide +kernel
  rw [hleft, hmounted]
  simp [hother]

end ArchiveVfs.Server
