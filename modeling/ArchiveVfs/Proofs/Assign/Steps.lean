import ArchiveVfs.Assign
import ArchiveVfs.Proofs.Text.Cut
import Mathlib.Logic.Relation

/-!
# Expansion as steps

`Step` says what one replacement of a leading token is, `Reaches` what a number of them
leads to. `resolve` gives the path that at most eight steps reach and that admits no
further one (`resolveWithin_eq_some`); where there is none it fails. The token of the
next path is that of the location and not of the path's rest, so a token that leads into
a cycle of assigns is never resolved (`Endless.resolveWithin_eq_none`).
-/

namespace ArchiveVfs.Assigns

open Text

variable {assigns : Assigns} {path next found name other rest : List Char} {limit count : Nat}

/-- The next path is the path with its leading token, the name of an assign, replaced by
the location under this name. -/
def Step (assigns : Assigns) (path next : List Char) : Prop :=
  ∃ name rest location, path = name ++ ':' :: rest ∧ isToken name = true ∧
    assigns.get? (String.ofList name) = some location ∧ next = joinRest location.toList rest

/-- Some number of steps leads from one path to another. -/
inductive Reaches (assigns : Assigns) : Nat → List Char → List Char → Prop where
  | here (path : List Char) : Reaches assigns 0 path path
  | step {count : Nat} {path next found : List Char} (hstep : assigns.Step path next) :
      Reaches assigns count next found → Reaches assigns (count + 1) path found

/-- No step leads on from a path. -/
def Final (assigns : Assigns) (path : List Char) : Prop :=
  ∀ next, ¬ assigns.Step path next

/-! ## One step -/

theorem not_mem_of_isToken {c : Char} (htoken : isToken name = true) (hc : isTokenChar c = false) :
    c ∉ name := by
  intro hin
  have hall := (Bool.and_eq_true_iff.1 htoken).2
  have htaken := List.all_eq_true.1 hall c hin
  rw [hc] at htaken
  cases htaken

theorem splitToken_eq_some :
    splitToken path = some (name, rest) ↔ path = name ++ ':' :: rest ∧ isToken name = true := by
  rw [splitToken, Option.filter_eq_some_iff]
  constructor
  · rintro ⟨hcut, htoken⟩
    exact ⟨(cutFirst_eq_some hcut).1, htoken⟩
  · rintro ⟨rfl, htoken⟩
    exact ⟨cutFirst_append (not_mem_of_isToken htoken (by decide)), htoken⟩

theorem step?_eq_some : assigns.step? path = some next ↔ assigns.Step path next := by
  constructor
  · intro h
    rw [step?] at h
    split at h
    · cases h
    · rename_i name rest hsplit
      obtain ⟨hpath, htoken⟩ := splitToken_eq_some.1 hsplit
      obtain ⟨location, hlocation, hnext⟩ := Option.map_eq_some_iff.1 h
      exact ⟨name, rest, location, hpath, htoken, hlocation, hnext.symm⟩
  · rintro ⟨name, rest, location, hpath, htoken, hlocation, rfl⟩
    rw [step?, splitToken_eq_some.2 ⟨hpath, htoken⟩]
    exact Option.map_eq_some_iff.2 ⟨location, hlocation, rfl⟩

theorem step?_eq_none : assigns.step? path = none ↔ assigns.Final path := by
  rw [Option.eq_none_iff_forall_ne_some]
  exact forall_congr' fun next => not_congr step?_eq_some

/-! ## Several steps -/

theorem resolveWithin_final (h : assigns.Final path) :
    assigns.resolveWithin limit path = some path := by
  unfold resolveWithin
  rw [step?_eq_none.2 h]

theorem resolveWithin_zero (h : assigns.Step path next) :
    assigns.resolveWithin 0 path = none := by
  unfold resolveWithin
  rw [step?_eq_some.2 h]

theorem resolveWithin_succ (h : assigns.Step path next) :
    assigns.resolveWithin (limit + 1) path = assigns.resolveWithin limit next := by
  rw [resolveWithin, step?_eq_some.2 h]

/-- Where no step leads on nothing else is reached. -/
theorem Final.reaches_iff (h : assigns.Final path) :
    (∃ count ≤ limit, assigns.Reaches count path found ∧ assigns.Final found) ↔ path = found := by
  constructor
  · rintro ⟨count, _, hreaches, _⟩
    cases hreaches with
    | here => rfl
    | step hstep _ => exact absurd hstep (h _)
  · rintro rfl
    exact ⟨0, Nat.zero_le limit, .here path, h⟩

/-- As there is one next path, what is reached at last is reached from there. -/
theorem Step.reaches_iff (h : assigns.Step path next) :
    (∃ count ≤ limit + 1, assigns.Reaches count path found ∧ assigns.Final found) ↔
      ∃ count ≤ limit, assigns.Reaches count next found ∧ assigns.Final found := by
  constructor
  · rintro ⟨count, hcount, hreaches, hfinal⟩
    cases hreaches with
    | here => exact absurd h (hfinal next)
    | step hother hreaches =>
      have hsame := (step?_eq_some.2 hother).symm.trans (step?_eq_some.2 h)
      obtain rfl := Option.some.inj hsame
      exact ⟨_, Nat.le_of_succ_le_succ hcount, hreaches, hfinal⟩
  · rintro ⟨count, hcount, hreaches, hfinal⟩
    exact ⟨count + 1, Nat.succ_le_succ hcount, .step h hreaches, hfinal⟩

theorem resolveWithin_eq_some : assigns.resolveWithin limit path = some found ↔
    ∃ count ≤ limit, assigns.Reaches count path found ∧ assigns.Final found := by
  induction limit generalizing path with
  | zero =>
    cases hstep : assigns.step? path with
    | none =>
      have hfinal := step?_eq_none.1 hstep
      rw [hfinal.reaches_iff, resolveWithin_final hfinal, Option.some.injEq]
    | some next =>
      -- a further step is needed, and there is none left
      rw [resolveWithin_zero (step?_eq_some.1 hstep)]
      refine ⟨nofun, ?_⟩
      rintro ⟨count, hcount, hreaches, hfinal⟩
      obtain rfl := Nat.le_zero.1 hcount
      cases hreaches
      exact absurd (step?_eq_some.1 hstep) (hfinal next)
  | succ limit ih =>
    cases hstep : assigns.step? path with
    | none =>
      have hfinal := step?_eq_none.1 hstep
      rw [hfinal.reaches_iff, resolveWithin_final hfinal, Option.some.injEq]
    | some next =>
      have hstep := step?_eq_some.1 hstep
      rw [resolveWithin_succ hstep, ih, hstep.reaches_iff]

theorem resolve_of_some {path : String} (h : assigns.resolveWithin 8 path.toList = some found) :
    assigns.resolve path = .ok (String.ofList found) := by
  rw [resolve, show assigns.resolveWithin maxDepth path.toList = some found from h]

theorem resolve_of_none {path : String} (h : assigns.resolveWithin 8 path.toList = none) :
    assigns.resolve path = .error (.cyclicAssign path 8) := by
  rw [resolve, show assigns.resolveWithin maxDepth path.toList = none from h]
  rfl

theorem resolve_eq_ok {path found : String} : assigns.resolve path = .ok found ↔
    assigns.resolveWithin 8 path.toList = some found.toList := by
  cases hwithin : assigns.resolveWithin 8 path.toList with
  | none =>
    rw [resolve_of_none hwithin]
    exact ⟨nofun, nofun⟩
  | some location =>
    rw [resolve_of_some hwithin, Except.ok.injEq, Option.some.injEq, ← String.toList_inj,
      String.toList_ofList]

theorem resolve_eq_error {path : String} {error : Error} :
    assigns.resolve path = .error error ↔
      assigns.resolveWithin 8 path.toList = none ∧ error = .cyclicAssign path 8 := by
  cases hwithin : assigns.resolveWithin 8 path.toList with
  | none =>
    rw [resolve_of_none hwithin, Except.error.injEq, eq_comm]
    exact (and_iff_right rfl).symm
  | some location =>
    rw [resolve_of_some hwithin]
    exact ⟨nofun, nofun⟩

/-! ## Cycles -/

/-- The location under a name begins with the other name as its token. -/
def Leads (assigns : Assigns) (name other : List Char) : Prop :=
  ∃ location rest, assigns.get? (String.ofList name) = some location ∧
    location.toList = other ++ ':' :: rest ∧ isToken other = true

/-- The name is on a cycle of assigns, or leads into one. -/
def Endless (assigns : Assigns) (name : List Char) : Prop :=
  ∃ top, Relation.ReflTransGen assigns.Leads name top ∧ Relation.TransGen assigns.Leads top top

theorem Endless.leads (h : assigns.Endless name) :
    ∃ other, assigns.Leads name other ∧ assigns.Endless other := by
  obtain ⟨top, hpath, hcycle⟩ := h
  rcases Relation.ReflTransGen.cases_head hpath with rfl | ⟨other, hlead, hpath⟩
  · obtain ⟨other, hlead, hback⟩ := Relation.TransGen.head'_iff.1 hcycle
    exact ⟨other, hlead, name, hback, hcycle⟩
  · exact ⟨other, hlead, top, hpath, hcycle⟩

/-- What is put behind a location leaves its text up to the first colon. -/
theorem joinRest_colon (before after rest : List Char) :
    ∃ more, joinRest (before ++ ':' :: after) rest = before ++ ':' :: more := by
  rw [joinRest]
  split
  · exact ⟨after, rfl⟩
  · rw [List.append_assoc, List.append_assoc]
    exact ⟨_, rfl⟩

/-- The token of the next path is that of the location, whatever the rest is. -/
theorem Leads.step (h : assigns.Leads name other) (htoken : isToken name = true)
    (rest : List Char) : ∃ more, assigns.Step (name ++ ':' :: rest) (other ++ ':' :: more) := by
  obtain ⟨location, after, hlocation, htext, _⟩ := h
  obtain ⟨more, hmore⟩ := joinRest_colon other after rest
  exact ⟨more, name, rest, location, rfl, htoken, hlocation, by rw [htext, hmore]⟩

theorem Endless.resolveWithin_eq_none (h : assigns.Endless name) (htoken : isToken name = true)
    (rest : List Char) : assigns.resolveWithin limit (name ++ ':' :: rest) = none := by
  -- each step leads to another endless name, so that no limit is enough
  induction limit generalizing name rest with
  | zero =>
    obtain ⟨other, hlead, _⟩ := h.leads
    obtain ⟨more, hstep⟩ := hlead.step htoken rest
    exact resolveWithin_zero hstep
  | succ limit ih =>
    obtain ⟨other, hlead, hother⟩ := h.leads
    obtain ⟨more, hstep⟩ := hlead.step htoken rest
    obtain ⟨_, _, _, _, hotherToken⟩ := hlead
    rw [resolveWithin_succ hstep, ih hother hotherToken]

/-! ## The whole resolution -/

/-- Resolution gives exactly the path that at most eight steps reach and from which none
leads on, and otherwise calls the path cyclic. So what it gives is resolved already, and
a token on a cycle of assigns or before one is refused with any text behind it. -/
theorem resolve_bounded (assigns : Assigns) (path : String) :
    (∀ found, assigns.resolve path = .ok found ↔
      ∃ count ≤ 8, assigns.Reaches count path.toList found.toList ∧
        assigns.Final found.toList) ∧
    (∀ error, assigns.resolve path = .error error ↔
      (∀ count ≤ 8, ∀ found, assigns.Reaches count path.toList found → ¬ assigns.Final found) ∧
        error = .cyclicAssign path 8) ∧
    (∀ found, assigns.resolve path = .ok found → assigns.resolve found = .ok found) ∧
    (∀ name rest, path.toList = name ++ ':' :: rest → isToken name = true →
      assigns.Endless name → assigns.resolve path = .error (.cyclicAssign path 8)) := by
  refine ⟨fun found => ?_, fun error => ?_, fun found hfound => ?_, ?_⟩
  · rw [resolve_eq_ok, resolveWithin_eq_some]
  · rw [resolve_eq_error, Option.eq_none_iff_forall_ne_some]
    refine and_congr_left'
      ⟨fun h count hcount found hreaches hfinal => ?_, fun h found hfound => ?_⟩
    · exact h found (resolveWithin_eq_some.2 ⟨count, hcount, hreaches, hfinal⟩)
    · obtain ⟨count, hcount, hreaches, hfinal⟩ := resolveWithin_eq_some.1 hfound
      exact h count hcount found hreaches hfinal
  · obtain ⟨_, _, _, hfinal⟩ := resolveWithin_eq_some.1 (resolve_eq_ok.1 hfound)
    exact resolve_eq_ok.2 (resolveWithin_final hfinal)
  · intro name rest hpath htoken hendless
    refine resolve_eq_error.2 ⟨?_, rfl⟩
    rw [hpath]
    exact hendless.resolveWithin_eq_none htoken rest

/-- Two assigns that stand for each other. -/
def eachOther : Assigns :=
  (Table.empty.insert "aa" "bb:x").insert "bb" "aa:y"

theorem resolve_bounded_eachOther :
    "aa:f:/g".toList = "aa".toList ++ ':' :: "f:/g".toList ∧ isToken "aa".toList = true ∧
    eachOther.Endless "aa".toList ∧
    eachOther.resolve "aa:f:/g" = .error (.cyclicAssign "aa:f:/g" 8) := by
  have hout : eachOther.Leads "aa".toList "bb".toList :=
    ⟨"bb:x", "x".toList, by decide +kernel, by decide, by decide⟩
  have hback : eachOther.Leads "bb".toList "aa".toList :=
    ⟨"aa:y", "y".toList, by decide +kernel, by decide, by decide⟩
  have hendless : eachOther.Endless "aa".toList := ⟨_, .refl, .tail (.single hout) hback⟩
  refine ⟨by decide, by decide, hendless, ?_⟩
  exact (resolve_bounded eachOther "aa:f:/g").2.2.2 "aa".toList "f:/g".toList (by decide)
    (by decide) hendless

end ArchiveVfs.Assigns
