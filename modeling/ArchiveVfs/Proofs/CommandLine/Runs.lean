import ArchiveVfs.CommandLine.Run
import ArchiveVfs.Proofs.Outcome

/-!
# Runs of the command line

Only the commands that copy or create a directory change the disk (`run_disk`). The exit code tells
how a run ended: it is 2 exactly if the arguments make no request (`run_code_eq_two_iff`), and 0
exactly if there is no complaint (`Ending.code_eq_zero_iff`).
-/

namespace ArchiveVfs.CommandLine

variable {environment : Environment} {rootVariable : Option String} {disk : Disk}
variable {arguments : List String} {server : Server} {request : Request}

/-! ## The disk -/

/-- The commands that change the disk. -/
def Command.changes : Command → Bool
  | .copy .. | .createDirectory _ => true
  | _ => false

theorem disk_answer (result : Except Failure (List String)) : (answer disk result).disk = disk := by
  cases result <;> rfl

theorem disk_listDirectory {path pattern : String} {whole : Bool} :
    (listDirectory server disk path pattern whole).disk = disk := by
  rw [listDirectory]
  split
  · split
    · exact disk_answer _
    · exact disk_answer _
  · exact disk_answer _

/-- A command that asks leaves the disk as it was. -/
theorem Command.disk_run {command : Command} (h : command.changes = false) :
    (command.run server disk).disk = disk := by
  cases command with
  | probe path => exact disk_answer _
  | list path pattern whole => exact disk_listDirectory
  | print path =>
    show (printFile server disk path).disk = disk
    rw [printFile]
    split
    · rfl
    · exact disk_answer _
  | checksum path => exact disk_answer _
  | assigns => exact disk_answer _
  | copy | createDirectory => cases h

/-- A run changes the disk only for a request to copy or to create a directory, and only once
its server has been built. -/
theorem run_disk (h : (run environment rootVariable disk arguments).disk ≠ disk) :
    ∃ request server, Request.ofArguments arguments rootVariable = .ok request ∧
      request.server environment disk = .ok server ∧ request.command.changes = true := by
  rw [run] at h
  split at h
  next request hrequest =>
    rw [Request.run] at h
    split at h
    next server hserver =>
      refine ⟨request, server, hrequest, hserver, ?_⟩
      cases hchanges : request.command.changes with
      | true => rfl
      | false => exact absurd (Command.disk_run hchanges) h
    · exact absurd (disk_answer _) h
  · exact absurd rfl h
  · exact absurd rfl h
  · exact absurd rfl h

/-! ## The exit code -/

/-- The run was not refused for its arguments. -/
def Outcome.Accepted (outcome : Outcome) : Prop :=
  ∀ fault, outcome.ending ≠ .refused fault

theorem accepted_answer (result : Except Failure (List String)) :
    (answer disk result).Accepted := by
  cases result <;> exact nofun

theorem Command.accepted_run (command : Command) : (command.run server disk).Accepted := by
  cases command with
  | probe | checksum | assigns | copy | createDirectory => exact accepted_answer _
  | list path pattern whole =>
    show (listDirectory server disk path pattern whole).Accepted
    rw [listDirectory]
    split
    · split
      · exact accepted_answer _
      · exact accepted_answer (plain _)
    · exact accepted_answer _
  | print path =>
    show (printFile server disk path).Accepted
    rw [printFile]
    split
    · exact nofun
    · exact accepted_answer _

theorem Request.accepted_run (request : Request) : (request.run environment disk).Accepted := by
  rw [Request.run]
  split
  · exact Command.accepted_run _
  · exact accepted_answer _

theorem Ending.code_eq_two_iff {ending : Ending} :
    ending.code = 2 ↔ ∃ fault, ending = .refused fault := by
  cases ending <;> simp [code]

/-- The exit code is 2 exactly if the arguments make no request. -/
theorem run_code_eq_two_iff : (run environment rootVariable disk arguments).ending.code = 2 ↔
    ∃ fault, Request.ofArguments arguments rootVariable = .error (.fault fault) := by
  -- past the arguments no run is refused, so each branch is told apart by what they make
  rw [Ending.code_eq_two_iff, run]
  split
  next request hrequest =>
    constructor
    · rintro ⟨fault, hrefused⟩
      exact absurd hrefused (request.accepted_run fault)
    · rintro ⟨fault, hfault⟩
      rw [hrequest] at hfault
      cases hfault
  next hhelp =>
    constructor
    · rintro ⟨fault, hrefused⟩
      cases hrefused
    · rintro ⟨fault, hfault⟩
      rw [hhelp] at hfault
      cases hfault
  next hversion =>
    constructor
    · rintro ⟨fault, hrefused⟩
      cases hrefused
    · rintro ⟨fault, hfault⟩
      rw [hversion] at hfault
      cases hfault
  next fault hfault => exact ⟨fun _ => ⟨fault, hfault⟩, fun _ => ⟨fault, rfl⟩⟩

theorem append_ne_empty {front back : String} (h : back ≠ "") : front ++ back ≠ "" := by
  simp [h]

theorem Failure.report_ne_empty (failure : Failure) : failure.report ≠ "" := by
  rw [Failure.report]
  exact append_ne_empty (by decide)

theorem helpText_ne_empty : helpText ≠ "" := by
  simp [helpText, programSummary]

/-- A run ends with exit code 0 exactly if nothing is written beside its output. -/
theorem Ending.code_eq_zero_iff {ending : Ending} : ending.code = 0 ↔ ending.complaint = "" := by
  cases ending with
  | done => simp [code, complaint]
  | failed failure => simp [code, complaint, failure.report_ne_empty]
  | refused fault =>
    have hsome : (Ending.refused fault).complaint ≠ "" := by
      cases fault with
      | nothing => exact helpText_ne_empty
      | _ => exact append_ne_empty (by decide)
    simp [code, hsome]

end ArchiveVfs.CommandLine
