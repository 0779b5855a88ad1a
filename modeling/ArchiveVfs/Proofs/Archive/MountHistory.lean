import Mathlib.Data.List.Nodup
import ArchiveVfs.Archive.Mounts
import ArchiveVfs.Proofs.Archive.Load

/-!
# The registry over whole runs

A run is any sequence of mounts, unmounts and look-ups, with any disk at every call.
`standing` reads off the answers of a run which archives should be mounted after it,
and in which order. `registry_history` joins the parts below: the registry
lists exactly these, no transition outlives its call, a call that fails changes
nothing, and all look-ups agree with the list.
-/

namespace ArchiveVfs

namespace Mounts

section Calls

variable {mounts : Mounts} {uri : Uri}

/-- An archive is mounted if its URI is that of an archive in the list. -/
theorem isMounted_iff : mounts.isMounted uri = true ↔ uri ∈ mounts.archives.map (·.uri) := by
  simp [isMounted, find?, List.find?_isSome]

/-- A transition that is begun and ended leaves the table as it was. -/
theorem erase_begin (state : MountState) (h : mounts.isBusy uri = false) :
    (mounts.begin uri state).transitions.erase uri.render = mounts.transitions :=
  Table.erase_insert state h

/-- All that mounting can do: refuse, fail to load, or put the archive in front. -/
theorem tryMount_cases (disk : Disk) (mountPoint : Uri) (hidle : mounts.isBusy uri = false) :
    (uri ∈ mounts.archives.map (·.uri) ∧
      mounts.tryMount disk uri mountPoint = (.error (.alreadyMounted uri), mounts)) ∨
    (uri ∉ mounts.archives.map (·.uri) ∧ ∃ fault,
      Archive.load disk mounts.maps uri mountPoint = .error (.badArchive uri fault) ∧
      mounts.tryMount disk uri mountPoint = (.error (.badArchive uri fault), mounts)) ∨
    (uri ∉ mounts.archives.map (·.uri) ∧ ∃ archive,
      Archive.load disk mounts.maps uri mountPoint = .ok archive ∧ archive.uri = uri ∧
      mounts.tryMount disk uri mountPoint
        = (.ok archive, { mounts with archives := archive :: mounts.archives })) := by
  by_cases hin : uri ∈ mounts.archives.map (·.uri)
  · left
    refine ⟨hin, ?_⟩
    rw [tryMount, isMounted_iff.2 hin, Bool.or_true, if_pos rfl]
  · have hout : mounts.isMounted uri = false := by
      rw [← Bool.not_eq_true, isMounted_iff]
      exact hin
    have hmaps : (mounts.begin uri .mounting).maps = mounts.maps := rfl
    right
    cases hload : Archive.load disk mounts.maps uri mountPoint with
    | error error =>
      obtain ⟨fault, rfl⟩ := Archive.load_eq_error hload
      refine .inl ⟨hin, fault, rfl, ?_⟩
      simp only [tryMount, hidle, hout, hmaps, hload, finish, erase_begin _ hidle]
      rfl
    | ok archive =>
      -- the transition that was begun is over, so only the list differs
      refine .inr ⟨hin, archive, rfl, Archive.uri_of_load hload, ?_⟩
      simp only [tryMount, hidle, hout, hmaps, hload, finish, erase_begin _ hidle]
      rfl

/-- All that unmounting can do: refuse, or take the archive out. -/
theorem tryUnmount_cases (hidle : mounts.isBusy uri = false) :
    (uri ∉ mounts.archives.map (·.uri) ∧
      mounts.tryUnmount uri = (.error (.notMounted uri), mounts)) ∨
    (uri ∈ mounts.archives.map (·.uri) ∧
      mounts.tryUnmount uri = (.ok (), { mounts with
        archives := mounts.archives.filter fun archive => archive.uri ≠ uri })) := by
  by_cases hin : uri ∈ mounts.archives.map (·.uri)
  · right
    refine ⟨hin, ?_⟩
    simp only [tryUnmount, hidle, isMounted_iff.2 hin, finish, erase_begin _ hidle]
    rfl
  · left
    have hout : mounts.isMounted uri = false := by
      rw [← Bool.not_eq_true, isMounted_iff]
      exact hin
    exact ⟨hin, by simp [tryUnmount, hout]⟩

end Calls

/-! ## Runs -/

/-- What a look-up asks about a URI. -/
inductive LookUp where
  | archives
  | isMounted
  | state
  | find
  /-- The archive of the URI, opened for once if it is not mounted. -/
  | findOrLoad
  | findWithFile
  | findWithDirectory
  | redirect
  deriving DecidableEq, Repr

/-- A call on the registry; the disk may be another at every call. -/
inductive Call where
  | mount (disk : Disk) (uri mountPoint : Uri)
  | unmount (uri : Uri)
  | lookUp (question : LookUp) (disk : Disk) (uri : Uri)

/-- The URI that a call is about. -/
def Call.uri : Call → Uri
  | mount _ uri _ => uri
  | unmount uri => uri
  | lookUp _ _ uri => uri

/-- What a call that succeeds answers. -/
inductive Answer where
  | mounted (archive : Archive)
  | unmounted (uri : Uri)
  | archives (listed : List Archive)
  | flag (value : Bool)
  | state (value : MountState)
  | found (archive : Option Archive)
  | inside (found : Option (Archive × String))
  | uri (value : Uri)

/-- Whether an answer tells that the archive of `uri` was mounted or unmounted. -/
def Answer.concerns (uri : Uri) : Except Error Answer → Bool
  | .ok (mounted archive) => archive.uri = uri
  | .ok (unmounted other) => other = uri
  | _ => false

/-- The answer to a look-up. -/
def ask (mounts : Mounts) (disk : Disk) (uri : Uri) : LookUp → Except Error Answer
  | .archives => .ok (.archives mounts.archives)
  | .isMounted => .ok (.flag (mounts.isMounted uri))
  | .state => .ok (.state (mounts.state uri))
  | .find => .ok (.found (mounts.find? uri))
  | .findOrLoad => (mounts.findOrLoad disk uri).map fun archive => .found (some archive)
  | .findWithFile => .ok (.inside (mounts.findWithFile uri))
  | .findWithDirectory => .ok (.inside (mounts.findWithDirectory uri))
  | .redirect => .ok (.uri (mounts.redirect uri))

/-- What a call answers, and the registry it leaves. -/
def perform (mounts : Mounts) : Call → Except Error Answer × Mounts
  | .mount disk uri mountPoint =>
    let (result, next) := mounts.tryMount disk uri mountPoint
    (result.map .mounted, next)
  | .unmount uri =>
    let (result, next) := mounts.tryUnmount uri
    (result.map fun _ => .unmounted uri, next)
  | .lookUp question disk uri => (mounts.ask disk uri question, mounts)

/-- The answers of a run, the first one first, and the registry it leaves. -/
def run (mounts : Mounts) : List Call → List (Except Error Answer) × Mounts
  | [] => ([], mounts)
  | call :: calls =>
    let (answer, next) := mounts.perform call
    let (answers, last) := next.run calls
    (answer :: answers, last)

/-- The archives that a run mounts and no later success concerns again, the one mounted
last first. -/
def standing : List (Except Error Answer) → List Archive
  | [] => []
  | .ok (.mounted archive) :: later =>
    standing later ++ if later.any (Answer.concerns archive.uri) then [] else [archive]
  | _ :: later => standing later

/-- What holds of a registry between two calls. -/
structure Orderly (mounts : Mounts) : Prop where
  /-- Nothing is being mounted or taken out. -/
  idle : mounts.transitions = .empty
  /-- No URI is mounted twice. -/
  distinct : (mounts.archives.map (·.uri)).Nodup

section Steps

variable {mounts : Mounts}

theorem Orderly.not_busy (h : mounts.Orderly) (uri : Uri) : mounts.isBusy uri = false := by
  rw [isBusy, h.idle]
  rfl

/-- All that a call can do to the list: leave it, put an archive in front that was not
there, or take one out that was. -/
theorem perform_cases (h : mounts.Orderly) (call : Call) :
    ((mounts.perform call).2 = mounts ∧
      ∀ uri, Answer.concerns uri (mounts.perform call).1 = false) ∨
    (∃ archive, archive.uri = call.uri ∧ call.uri ∉ mounts.archives.map (·.uri) ∧
      mounts.perform call
        = (.ok (.mounted archive), { mounts with archives := archive :: mounts.archives })) ∨
    (call.uri ∈ mounts.archives.map (·.uri) ∧
      mounts.perform call = (.ok (.unmounted call.uri), { mounts with
        archives := mounts.archives.filter fun archive => archive.uri ≠ call.uri })) := by
  cases call with
  | mount disk uri mountPoint =>
    rcases tryMount_cases disk mountPoint (h.not_busy uri) with
      ⟨_, heq⟩ | ⟨_, fault, _, heq⟩ | ⟨hout, archive, _, huri, heq⟩
    · left
      rw [perform, heq]
      exact ⟨rfl, fun _ => rfl⟩
    · left
      rw [perform, heq]
      exact ⟨rfl, fun _ => rfl⟩
    · exact .inr (.inl ⟨archive, huri, hout, by simp [perform, heq, Except.map]⟩)
  | unmount uri =>
    rcases tryUnmount_cases (h.not_busy uri) with ⟨_, heq⟩ | ⟨hin, heq⟩
    · left
      rw [perform, heq]
      exact ⟨rfl, fun _ => rfl⟩
    · refine .inr (.inr ⟨hin, ?_⟩)
      rw [perform, heq]
      rfl
  | lookUp question disk uri =>
    refine .inl ⟨rfl, ?_⟩
    intro other
    show Answer.concerns other (mounts.ask disk uri question) = false
    cases question with
    | findOrLoad =>
      rw [ask]
      cases mounts.findOrLoad disk uri <;> rfl
    | _ => rfl

/-- Every call leaves an orderly registry. -/
theorem Orderly.perform (h : mounts.Orderly) (call : Call) : (mounts.perform call).2.Orderly := by
  rcases perform_cases h call with ⟨heq, _⟩ | ⟨archive, huri, hout, heq⟩ | ⟨_, heq⟩
  · rw [heq]
    exact h
  · rw [heq]
    refine ⟨h.idle, ?_⟩
    rw [List.map_cons, List.nodup_cons, huri]
    exact ⟨hout, h.distinct⟩
  · rw [heq]
    exact ⟨h.idle, h.distinct.sublist (List.filter_sublist.map _)⟩

theorem Orderly.run (h : mounts.Orderly) (calls : List Call) : (mounts.run calls).2.Orderly := by
  induction calls generalizing mounts with
  | nil => exact h
  | cons call calls ih => exact ih (h.perform call)

/-- After a run the list holds what the run has left standing, and behind it what was
mounted before and no success of the run concerns. -/
theorem archives_of_run (h : mounts.Orderly) (calls : List Call) :
    (mounts.run calls).2.archives = standing (mounts.run calls).1 ++
      mounts.archives.filter fun archive =>
        !(mounts.run calls).1.any (Answer.concerns archive.uri) := by
  induction calls generalizing mounts with
  | nil => exact (List.filter_eq_self.2 fun _ _ => rfl).symm
  | cons call calls ih =>
    have hnext := ih (h.perform call)
    show ((mounts.perform call).2.run calls).2.archives = _
    rw [hnext]
    show _ = standing ((mounts.perform call).1 :: ((mounts.perform call).2.run calls).1) ++
      mounts.archives.filter fun archive =>
        !((mounts.perform call).1 :: ((mounts.perform call).2.run calls).1).any
          (Answer.concerns archive.uri)
    generalize hlater : ((mounts.perform call).2.run calls).1 = later
    -- what the first answer adds to `standing`, or keeps out of the old list
    rcases perform_cases h call with ⟨heq, hquiet⟩ | ⟨archive, huri, hout, heq⟩ | ⟨_, heq⟩
    · have hstanding : standing ((mounts.perform call).1 :: later) = standing later := by
        cases hanswer : (mounts.perform call).1 with
        | error error => rfl
        | ok answer =>
          cases answer with
          | mounted archive => simpa [hanswer, Answer.concerns] using hquiet archive.uri
          | _ => rfl
      simp only [hstanding, heq, List.any_cons, hquiet, Bool.false_or]
    · -- no archive that was there before has the URI of the new one
      have hrest : ∀ other ∈ mounts.archives, archive.uri ≠ other.uri := by
        intro other hin heq
        exact hout (huri ▸ heq ▸ List.mem_map_of_mem hin)
      simp only [heq, standing, List.append_assoc, List.any_cons, Answer.concerns]
      congr 1
      rw [List.filter_cons]
      have hfilter : mounts.archives.filter (fun other =>
            !(decide (archive.uri = other.uri) || later.any (Answer.concerns other.uri)))
          = mounts.archives.filter fun other => !later.any (Answer.concerns other.uri) :=
        List.filter_congr fun other hin => by simp [hrest other hin]
      rw [hfilter]
      cases later.any (Answer.concerns archive.uri) <;> rfl
    · simp only [heq, standing, List.any_cons, Answer.concerns, List.filter_filter]
      congr 1
      refine List.filter_congr fun other _ => ?_
      rw [Bool.not_or, Bool.and_comm]
      congr 1
      by_cases hsame : other.uri = call.uri
      · simp [hsame]
      · simp [hsame, Ne.symm hsame]

/-- Two registries that list the same archives but for those of `uri`. -/
def AgreeOff (uri : Uri) (mounts other : Mounts) : Prop :=
  other.maps = mounts.maps ∧
    other.archives = mounts.archives.filter fun archive => archive.uri ≠ uri

/-- A call about `uri` touches no other archive. -/
theorem AgreeOff.perform_left {other : Mounts} {uri : Uri} (hsame : AgreeOff uri mounts other)
    (h : mounts.Orderly) (call : Call) (huri : call.uri = uri) :
    AgreeOff uri (mounts.perform call).2 other := by
  obtain ⟨hmaps, harchives⟩ := hsame
  subst huri
  rcases perform_cases h call with ⟨heq, _⟩ | ⟨archive, harchive, _, heq⟩ | ⟨_, heq⟩
  · rw [heq]
    exact ⟨hmaps, harchives⟩
  · rw [heq]
    refine ⟨hmaps, ?_⟩
    rw [harchives, List.filter_cons_of_neg (by simpa using harchive)]
  · rw [heq]
    refine ⟨hmaps, ?_⟩
    rw [harchives, List.filter_filter]
    simp only [Bool.and_self]

/-- A call about another URI does to both the same. -/
theorem AgreeOff.perform_both {other : Mounts} {uri : Uri} (hsame : AgreeOff uri mounts other)
    (h : mounts.Orderly) (hother : other.Orderly) (call : Call) (huri : call.uri ≠ uri) :
    AgreeOff uri (mounts.perform call).2 (other.perform call).2 := by
  obtain ⟨hmaps, harchives⟩ := hsame
  have hmem : call.uri ∈ other.archives.map (·.uri) ↔ call.uri ∈ mounts.archives.map (·.uri) := by
    rw [harchives, List.mem_map, List.mem_map]
    constructor
    · rintro ⟨archive, hin, heq⟩
      exact ⟨archive, (List.mem_filter.1 hin).1, heq⟩
    · rintro ⟨archive, hin, heq⟩
      exact ⟨archive, List.mem_filter.2 ⟨hin, by simpa [heq] using huri⟩, heq⟩
  -- both answer alike: they agree on what is mounted, and load from the same disk
  cases call with
  | mount disk called mountPoint =>
    rcases tryMount_cases disk mountPoint (h.not_busy called) with
      ⟨hin, heq⟩ | ⟨hout, fault, hload, heq⟩ | ⟨hout, archive, hload, harchive, heq⟩
    · rcases tryMount_cases disk mountPoint (hother.not_busy called) with
        ⟨_, heq'⟩ | ⟨hout', _⟩ | ⟨hout', _⟩
      · simp only [perform, heq, heq']
        exact ⟨hmaps, harchives⟩
      · exact absurd (hmem.2 hin) hout'
      · exact absurd (hmem.2 hin) hout'
    · rcases tryMount_cases disk mountPoint (hother.not_busy called) with
        ⟨hin', _⟩ | ⟨_, fault', _, heq'⟩ | ⟨_, archive', hload', _⟩
      · exact absurd (hmem.1 hin') hout
      · simp only [perform, heq, heq']
        exact ⟨hmaps, harchives⟩
      · rw [hmaps, hload] at hload'
        cases hload'
    · rcases tryMount_cases disk mountPoint (hother.not_busy called) with
        ⟨hin', _⟩ | ⟨_, fault', hload', _⟩ | ⟨_, archive', hload', _, heq'⟩
      · exact absurd (hmem.1 hin') hout
      · rw [hmaps, hload] at hload'
        cases hload'
      · rw [hmaps, hload] at hload'
        cases hload'
        simp only [perform, heq, heq']
        refine ⟨hmaps, ?_⟩
        have hkept : archive.uri ≠ uri := harchive ▸ huri
        rw [harchives, List.filter_cons_of_pos (by simpa using hkept)]
  | unmount called =>
    rcases tryUnmount_cases (h.not_busy called) with ⟨hout, heq⟩ | ⟨hin, heq⟩
    · rcases tryUnmount_cases (hother.not_busy called) with ⟨_, heq'⟩ | ⟨hin', _⟩
      · simp only [perform, heq, heq']
        exact ⟨hmaps, harchives⟩
      · exact absurd (hmem.1 hin') hout
    · rcases tryUnmount_cases (hother.not_busy called) with ⟨hout', _⟩ | ⟨_, heq'⟩
      · exact absurd (hmem.2 hin) hout'
      · simp only [perform, heq, heq']
        refine ⟨hmaps, ?_⟩
        rw [harchives, List.filter_filter, List.filter_filter]
        simp only [Bool.and_comm]
  | lookUp question disk called => exact ⟨hmaps, harchives⟩

/-- Without the calls about one URI a run leaves the other archives as they are
with them. -/
theorem AgreeOff.run {other : Mounts} {uri : Uri} (hsame : AgreeOff uri mounts other)
    (h : mounts.Orderly) (hother : other.Orderly) (calls : List Call) :
    AgreeOff uri (mounts.run calls).2 (other.run (calls.filter fun call => call.uri ≠ uri)).2 := by
  induction calls generalizing mounts other with
  | nil => exact hsame
  | cons call calls ih =>
    by_cases huri : call.uri = uri
    · rw [List.filter_cons_of_neg (by simpa using huri)]
      exact ih (hsame.perform_left h call huri) (h.perform call) hother
    · rw [List.filter_cons_of_pos (by simpa using huri)]
      exact ih (hsame.perform_both h hother call huri) (h.perform call) (hother.perform call)

end Steps

/-! ## What a registry tells of itself -/

/-- A registry at rest shows the archives of a list, and its look-ups agree with it. -/
structure Shows (mounts : Mounts) (listed : List Archive) : Prop where
  archives : mounts.archives = listed
  distinct : (listed.map (·.uri)).Nodup
  idle : mounts.transitions = .empty
  isMounted : ∀ uri, mounts.isMounted uri = true ↔ uri ∈ listed.map (·.uri)
  find : ∀ uri archive, mounts.find? uri = some archive ↔ archive ∈ listed ∧ archive.uri = uri
  state : ∀ uri, mounts.state uri
    = if uri ∈ listed.map (·.uri) then MountState.mounted else MountState.unmounted

theorem Orderly.shows {mounts : Mounts} (h : mounts.Orderly) : mounts.Shows mounts.archives where
  archives := rfl
  distinct := h.distinct
  idle := h.idle
  isMounted uri := isMounted_iff
  find uri archive := by
    constructor
    · intro hfind
      have hsame := List.find?_some hfind
      exact ⟨List.mem_of_find?_eq_some hfind, of_decide_eq_true hsame⟩
    · rintro ⟨hin, rfl⟩
      have hsome : (mounts.find? archive.uri).isSome := isMounted_iff.2 (List.mem_map_of_mem hin)
      obtain ⟨first, hfirst⟩ := Option.isSome_iff_exists.1 hsome
      -- URIs are distinct, so the first one found is the only one
      have hdecided := List.find?_some hfirst
      have hsame : first.uri = archive.uri := of_decide_eq_true hdecided
      rw [hfirst, List.inj_on_of_nodup_map h.distinct (List.mem_of_find?_eq_some hfirst) hin hsame]
  state uri := by
    have hnone : mounts.transitions.get? uri.render = none := by
      rw [h.idle]
      rfl
    simp only [state, hnone, isMounted_iff]

/-- How the list after a call depends on its answer and on the list before. -/
structure Accounts (mounts : Mounts) (call : Call) (answer : Except Error Answer)
    (next : Mounts) : Prop where
  /-- What fails changes nothing. -/
  failed : ∀ error, answer = .error error → next = mounts
  /-- What only looks changes nothing. -/
  lookedUp : ∀ question disk uri, call = .lookUp question disk uri → next = mounts
  /-- What is mounted was not there before, and stands in front. -/
  mounted : ∀ disk uri mountPoint, call = .mount disk uri mountPoint →
    (∃ archive, answer = .ok (.mounted archive) ∧
      Archive.load disk mounts.maps uri mountPoint = .ok archive ∧ archive.uri = uri ∧
      uri ∉ mounts.archives.map (·.uri) ∧ next.archives = archive :: mounts.archives) ∨
    (∃ fault, answer = .error (.badArchive uri fault) ∧
      Archive.load disk mounts.maps uri mountPoint = .error (.badArchive uri fault) ∧
      uri ∉ mounts.archives.map (·.uri)) ∨
    (answer = .error (.alreadyMounted uri) ∧ uri ∈ mounts.archives.map (·.uri))
  /-- What is unmounted was there before, and is all that goes. -/
  unmounted : ∀ uri, call = .unmount uri →
    (answer = .ok (.unmounted uri) ∧ uri ∈ mounts.archives.map (·.uri) ∧
      next.archives = mounts.archives.filter fun archive => archive.uri ≠ uri) ∨
    (answer = .error (.notMounted uri) ∧ uri ∉ mounts.archives.map (·.uri))

theorem Orderly.accounts {mounts : Mounts} (h : mounts.Orderly) (call : Call) :
    mounts.Accounts call (mounts.perform call).1 (mounts.perform call).2 where
  failed error herror := by
    rcases perform_cases h call with ⟨heq, _⟩ | ⟨archive, _, _, heq⟩ | ⟨_, heq⟩
    · exact heq
    · rw [heq] at herror
      cases herror
    · rw [heq] at herror
      cases herror
  lookedUp question disk uri hcall := by
    subst hcall
    rfl
  mounted disk uri mountPoint hcall := by
    subst hcall
    rcases tryMount_cases disk mountPoint (h.not_busy uri) with
      ⟨hin, heq⟩ | ⟨hout, fault, hload, heq⟩ | ⟨hout, archive, hload, huri, heq⟩
    · simp only [Mounts.perform, heq]
      exact .inr (.inr ⟨rfl, hin⟩)
    · simp only [Mounts.perform, heq]
      exact .inr (.inl ⟨fault, rfl, hload, hout⟩)
    · simp only [Mounts.perform, heq]
      exact .inl ⟨archive, rfl, hload, huri, hout, rfl⟩
  unmounted uri hcall := by
    subst hcall
    rcases tryUnmount_cases (h.not_busy uri) with ⟨hout, heq⟩ | ⟨hin, heq⟩
    · simp only [Mounts.perform, heq]
      exact .inr ⟨rfl, hout⟩
    · left
      rw [Mounts.perform, heq]
      exact ⟨rfl, hin, rfl⟩

/-- An archive stands if an answer of the run mounted it and none after concerns it. -/
theorem mem_standing {answers : List (Except Error Answer)} {archive : Archive} :
    archive ∈ standing answers ↔ ∃ before after, answers = before ++ .ok (.mounted archive) :: after
      ∧ ∀ answer ∈ after, Answer.concerns archive.uri answer = false := by
  induction answers with
  | nil => simp [standing]
  | cons first later ih =>
    have hlater : archive ∈ standing later → ∃ before after,
        first :: later = before ++ .ok (.mounted archive) :: after ∧
          ∀ answer ∈ after, Answer.concerns archive.uri answer = false := by
      intro hin
      obtain ⟨before, after, rfl, hquiet⟩ := ih.1 hin
      exact ⟨first :: before, after, rfl, hquiet⟩
    constructor
    · intro hin
      cases first with
      | error error => exact hlater hin
      | ok answer =>
        cases answer with
        | mounted other =>
          rw [standing, List.mem_append] at hin
          rcases hin with hin | hin
          · exact hlater hin
          · by_cases hagain : later.any (Answer.concerns other.uri) = true
            · rw [if_pos hagain] at hin
              cases hin
            · rw [if_neg hagain, List.mem_singleton] at hin
              subst hin
              exact ⟨[], later, rfl, by simpa using hagain⟩
        | _ => exact hlater hin
    · rintro ⟨before, after, hsplit, hquiet⟩
      cases before with
      | nil =>
        obtain ⟨rfl, rfl⟩ := List.cons.inj hsplit
        have hnever : later.any (Answer.concerns archive.uri) = false := by simpa using hquiet
        rw [standing, hnever]
        exact List.mem_append_right _ List.mem_cons_self
      | cons head before =>
        obtain ⟨rfl, rfl⟩ := List.cons.inj hsplit
        have hin := ih.2 ⟨before, after, rfl, hquiet⟩
        cases first with
        | error error => exact hin
        | ok answer =>
          cases answer with
          | mounted other => exact List.mem_append_left _ hin
          | _ => exact hin

/-- A registry that was empty at first lists, after any run, the archives whose last
success was a mount, the one mounted last first; the next call does only what it answers,
and an archive that is taken out leaves the others as a run without it has them. -/
theorem registry_history (maps : Bool) (calls : List Call) :
    let answers := (run { maps } calls).1
    let mounts := (run { maps } calls).2
    mounts.Shows (standing answers) ∧
    (∀ archive, archive ∈ mounts.archives ↔
      ∃ before after, answers = before ++ .ok (.mounted archive) :: after
        ∧ ∀ answer ∈ after, Answer.concerns archive.uri answer = false) ∧
    (∀ call, mounts.Accounts call (mounts.perform call).1 (mounts.perform call).2) ∧
    ∀ uri, (mounts.tryUnmount uri).1 = .ok () →
      uri ∉ (mounts.tryUnmount uri).2.archives.map (·.uri) ∧
      (mounts.tryUnmount uri).2.archives
        = (run { maps } (calls.filter fun call => call.uri ≠ uri)).2.archives := by
  intro answers mounts
  have hempty : ({ maps } : Mounts).Orderly := ⟨rfl, .nil⟩
  have horderly : mounts.Orderly := hempty.run calls
  have harchives : mounts.archives = standing answers := by
    rw [archives_of_run hempty calls]
    exact List.append_nil _
  refine ⟨harchives ▸ horderly.shows, ?_, horderly.accounts, ?_⟩
  · intro archive
    rw [harchives]
    exact mem_standing
  · intro uri hok
    rcases tryUnmount_cases (horderly.not_busy uri) with ⟨_, heq⟩ | ⟨_, heq⟩
    · rw [heq] at hok
      cases hok
    · have hagree :
          AgreeOff uri mounts (run { maps } (calls.filter fun call => call.uri ≠ uri)).2 :=
        AgreeOff.run ⟨rfl, rfl⟩ hempty hempty calls
      rw [heq]
      refine ⟨?_, hagree.2.symm⟩
      simp

end Mounts

end ArchiveVfs
