import ArchiveVfs.Proofs.Server.Histories

/-!
# What no event looks at

Events look at a few fields of a server and change few. A change of other fields (`Inert`)
may be made before an event or after it (`tryEvent_inert`), and so before a whole history or
after it (`afterAll_inert`).
-/

namespace ArchiveVfs.Server

/-- A change of a server that leaves alone what events look at and change. -/
structure Inert (change : Server → Server) : Prop where
  resolve : ∀ server path, (change server).resolve path = server.resolve path
  standardArchive : ∀ server, (change server).standardArchive = server.standardArchive
  assigns : ∀ server, (change server).assigns = server.assigns
  schemes : ∀ server, (change server).schemes = server.schemes
  mounts : ∀ server, (change server).mounts = server.mounts
  standardMounted : ∀ server, (change server).standardMounted = server.standardMounted
  withAssigns : ∀ server assigns, { change server with assigns } = change { server with assigns }
  withSchemes : ∀ server schemes, { change server with schemes } = change { server with schemes }
  withMounts : ∀ server mounts, { change server with mounts } = change { server with mounts }
  withStandard : ∀ server standardMounted,
    { change server with standardMounted } = change { server with standardMounted }

section Inertia

variable {change : Server → Server} (h : Inert change) {server : Server}
include h

theorem resolveArchive_inert (path : String) :
    (change server).resolveArchive path = server.resolveArchive path := by
  rw [resolveArchive, resolveArchive, h.resolve]

theorem mountUri_inert (disk : Disk) (uri mountPoint : Uri) :
    (change server).mountUri disk uri mountPoint
      = (server.mountUri disk uri mountPoint).map change := by
  rw [mountUri, mountUri, h.mounts]
  cases server.mounts.mount disk uri mountPoint with
  | error error => rfl
  | ok mounts => exact congrArg Except.ok (h.withMounts server mounts)

theorem mountStandard_inert (disk : Disk) :
    (change server).mountStandard disk = (server.mountStandard disk).map change := by
  rw [mountStandard, mountStandard, h.standardArchive, h.standardMounted, h.resolve,
    resolveArchive_inert h]
  cases server.standardMounted with
  | true => rfl
  | false =>
    simp only [if_neg Bool.false_ne_true]
    cases server.resolveArchive server.standardArchive with
    | error error => rfl
    | ok uri =>
      simp only [Outcome.ok_bind]
      by_cases hthere : disk.fileExists uri.nativePath = true
      · simp only [if_pos hthere, mountUri_inert h]
        cases server.resolve "root:" with
        | error error => rfl
        | ok mountPoint =>
          simp only [Outcome.ok_bind]
          cases server.mountUri disk uri mountPoint with
          | error error => rfl
          | ok mounted => exact congrArg Except.ok (h.withStandard mounted true)
      · simp only [if_neg hthere]
        exact congrArg Except.ok (h.withStandard server true)

theorem unmountStandard_inert :
    (change server).unmountStandard = server.unmountStandard.map change := by
  -- the archive is looked for among the mounts, which the change leaves alone
  rw [unmountStandard, unmountStandard, h.standardArchive, h.standardMounted,
    resolveArchive_inert h]
  cases server.standardMounted with
  | false => rfl
  | true =>
    simp only [if_true]
    cases server.resolveArchive server.standardArchive with
    | error error => rfl
    | ok uri =>
      have hmounted : (change server).mounts.isMounted uri = server.mounts.isMounted uri := by
        rw [h.mounts]
      have hunmount : (change server).mounts.unmount uri = server.mounts.unmount uri := by
        rw [h.mounts]
      simp only [Outcome.ok_bind, hmounted, hunmount]
      by_cases hthere : server.mounts.isMounted uri = true
      · simp only [if_pos hthere]
        cases server.mounts.unmount uri with
        | error error => rfl
        | ok mounts =>
          show Except.ok { { change server with mounts } with standardMounted := false } = _
          rw [h.withMounts, h.withStandard]
          rfl
      · simp only [if_neg hthere]
        exact congrArg Except.ok (h.withStandard server false)

/-- Whether the change comes before an event or after it makes no difference; if the event flips
the switch of the archives, the change must not look at that. -/
theorem tryEvent_inert {event : Event}
    (hflip : ∀ disk enabled, event = .call ⟨disk, .enableArchives enabled⟩ →
      { change server with archivesEnabled := enabled }
        = change { server with archivesEnabled := enabled }) :
    (change server).tryEvent event = (server.tryEvent event).map change := by
  cases event with
  | mountUri disk uri mountPoint hfile => exact mountUri_inert h disk uri mountPoint
  | call moment =>
    obtain ⟨disk, call⟩ := moment
    cases call with
    | setAssign name location =>
      show Except.ok { change server with assigns := (change server).assigns.insert name location }
        = _
      rw [h.withAssigns, h.assigns]
      rfl
    | clearAssign name =>
      show Except.ok { change server with assigns := (change server).assigns.erase name } = _
      rw [h.withAssigns, h.assigns]
      rfl
    | registerScheme scheme kind =>
      show ((change server).schemes.register scheme kind).map _
        = ((server.schemes.register scheme kind).map _).map _
      rw [h.schemes]
      cases server.schemes.register scheme kind with
      | error error => rfl
      | ok schemes => exact congrArg Except.ok (h.withSchemes server schemes)
    | unregisterScheme scheme =>
      show Except.ok { change server with schemes := (change server).schemes.unregister scheme }
        = _
      rw [h.withSchemes, h.schemes]
      rfl
    | enableArchives enabled => exact congrArg Except.ok (hflip disk enabled rfl)
    | mountArchive path =>
      show ((change server).resolveArchive path >>= _) = (server.resolveArchive path >>= _).map _
      rw [resolveArchive_inert h]
      cases server.resolveArchive path with
      | error error => rfl
      | ok uri => exact mountUri_inert h disk uri (uri.parent.getD uri)
    | mountArchiveAt path mountPoint =>
      show ((change server).resolveArchive path >>= _) = (server.resolveArchive path >>= _).map _
      simp only [resolveArchive_inert h, h.resolve]
      cases server.resolveArchive path with
      | error error => rfl
      | ok uri =>
        show (server.resolve mountPoint >>= _) = (server.resolve mountPoint >>= _).map _
        cases server.resolve mountPoint with
        | error error => rfl
        | ok point => exact mountUri_inert h disk uri point
    | unmountArchive path =>
      show ((change server).resolveArchive path >>= _) = (server.resolveArchive path >>= _).map _
      simp only [resolveArchive_inert h, h.mounts]
      cases server.resolveArchive path with
      | error error => rfl
      | ok uri =>
        show (server.mounts.unmount uri >>= _) = (server.mounts.unmount uri >>= _).map _
        cases server.mounts.unmount uri with
        | error error => rfl
        | ok mounts => exact congrArg Except.ok (h.withMounts server mounts)
    | unmountUri uri =>
      show ((change server).mounts.unmount uri).map _ = ((server.mounts.unmount uri).map _).map _
      rw [h.mounts]
      cases server.mounts.unmount uri with
      | error error => rfl
      | ok mounts => exact congrArg Except.ok (h.withMounts server mounts)
    | mountStandard => exact mountStandard_inert h disk
    | unmountStandard => exact unmountStandard_inert h

theorem afterEvent_inert {event : Event}
    (hflip : ∀ disk enabled, event = .call ⟨disk, .enableArchives enabled⟩ →
      { change server with archivesEnabled := enabled }
        = change { server with archivesEnabled := enabled }) :
    (change server).afterEvent event = change (server.afterEvent event) := by
  rw [afterEvent, afterEvent, tryEvent_inert h hflip]
  cases server.tryEvent event <;> rfl

/-- So for a whole history. -/
theorem afterAll_inert
    (hflip : ∀ server enabled, { change server with archivesEnabled := enabled }
      = change { server with archivesEnabled := enabled }) (events : List Event) :
    (change server).afterAll events = change (server.afterAll events) := by
  induction events generalizing server with
  | nil => rfl
  | cons event events ih =>
    rw [afterAll, afterEvent_inert h fun _ enabled _ => hflip server enabled, ih, afterAll]

end Inertia

end ArchiveVfs.Server
