import ArchiveVfs.Proofs.Server.Runs

/-!
# Histories of a server

A history is any sequence of calls and of mounts in the registry itself, each with the
disk as it is then. What holds of a server between two calls (`Sound`) holds at every
point of a history.
-/

namespace ArchiveVfs.Server

/-- What may change a server: a call, or a mount behind its back in the registry, which
takes URIs of files. -/
inductive Event where
  | call (moment : Moment)
  | mountUri (disk : Disk) (uri mountPoint : Uri) (hfile : uri.isFile = true)

/-- The disk as it is then. -/
def Event.disk : Event → Disk
  | call moment => moment.disk
  | mountUri disk .. => disk

/-- What an event makes of a server, if it succeeds. -/
def tryEvent (server : Server) : Event → Except Error Server
  | .call moment => server.attempt moment
  | .mountUri disk uri mountPoint _ => server.mountUri disk uri mountPoint

/-- The server that an event leaves; one that fails leaves it as it was. -/
def afterEvent (server : Server) (event : Event) : Server :=
  match server.tryEvent event with
  | .ok next => next
  | .error _ => server

/-- The server that a history leaves. -/
def afterAll (server : Server) : List Event → Server
  | [] => server
  | event :: later => (server.afterEvent event).afterAll later

variable {server next : Server}

theorem afterEvent_of_ok {event : Event} (h : server.tryEvent event = .ok next) :
    server.afterEvent event = next := by
  rw [afterEvent, h]

theorem afterEvent_of_error {event : Event} {error : Error}
    (h : server.tryEvent event = .error error) : server.afterEvent event = server := by
  rw [afterEvent, h]

/-- All that an event that succeeds does to the archives; the settings stay. -/
theorem turn_of_event {event : Event} (horderly : server.mounts.Orderly)
    (h : server.tryEvent event = .ok next) :
    server.mounts.Turn event.disk next.mounts ∧ next.settings = server.settings := by
  cases event with
  | call moment => exact turn_of_attempt horderly h
  | mountUri disk uri mountPoint hfile => exact turn_of_mountUri horderly hfile h

/-- Every event leaves a sound server. -/
theorem Sound.afterEvent (h : server.Sound) (event : Event) : (server.afterEvent event).Sound := by
  cases hevent : server.tryEvent event with
  | error error =>
    rw [afterEvent_of_error hevent]
    exact h
  | ok next =>
    obtain ⟨hturn, hsettings⟩ := turn_of_event h.mounts.toOrderly hevent
    rw [afterEvent_of_ok hevent]
    refine ⟨hturn.sound h.mounts, ?_⟩
    rw [hsettings]
    exact h.buffer

theorem Sound.afterAll (h : server.Sound) (events : List Event) :
    (server.afterAll events).Sound := by
  induction events generalizing server with
  | nil => exact h
  | cons event events ih => exact ih (h.afterEvent event)

/-- No event changes the settings. -/
theorem settings_afterAll (h : server.Sound) (events : List Event) :
    (server.afterAll events).settings = server.settings := by
  induction events generalizing server with
  | nil => rfl
  | cons event events ih =>
    rw [afterAll, ih (h.afterEvent event)]
    cases hevent : server.tryEvent event with
    | error error => rw [afterEvent_of_error hevent]
    | ok next =>
      rw [afterEvent_of_ok hevent]
      exact (turn_of_event h.mounts.toOrderly hevent).2

/-- Copies take a byte at a time or more. -/
theorem copyBuffer_afterAll {settings : Settings} {environment : Environment}
    {equipment : Equipment} (hbuild : build settings environment equipment = .ok server)
    (events : List Event) : 0 < (server.afterAll events).settings.copyBufferSize.toNat := by
  rw [settings_afterAll (sound_of_build hbuild) events]
  obtain ⟨_, hvalid, rfl⟩ := Outcome.map_eq_ok.1 hbuild
  show 0 < settings.copyBufferSize.toNat
  rw [Nat.pos_iff_ne_zero]
  intro hzero
  have hnone : settings.copyBufferSize = 0 := UInt64.toNat_inj.1 hzero
  rw [Settings.validate, Settings.fault?, if_pos hnone] at hvalid
  cases hvalid

end ArchiveVfs.Server
