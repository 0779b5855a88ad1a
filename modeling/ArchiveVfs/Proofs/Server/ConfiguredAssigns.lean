import ArchiveVfs.Proofs.Assign.Steps
import ArchiveVfs.Proofs.Outcome
import ArchiveVfs.Server.Basic

/-!
# The assigns of the settings

Settings and expansion have their own notions of a name. Settings are checked for names of
two bytes or more without a colon; a token is made of letters and digits, `_` and `-`
besides. For the names that the check lets through, the two agree on those of such
characters (`isToken_iff`). A server that is built has every assign of its settings, so a
token of one of them is always replaced (`Substitutes`), while a name with any other
character is never looked up, and its text stays as it is.
-/

namespace ArchiveVfs

open Text

/-! ## What replacing a token comes to -/

namespace Assigns

variable {assigns : Assigns} {name location rest : String}

/-- The location with the rest of a path behind it. -/
def joined (location rest : String) : String :=
  String.ofList (joinRest location.toList rest.toList)

/-- The token before a rest is replaced by the location, and what is made of this is resolved
further, unless one step more is too many. -/
structure Substitutes (assigns : Assigns) (name location rest : String) : Prop where
  /-- The path stands for what is put in its place, or is called cyclic. -/
  outcome : assigns.resolve (name ++ ":" ++ rest) = assigns.resolve (joined location rest) ∨
    assigns.resolve (name ++ ":" ++ rest) = .error (.cyclicAssign (name ++ ":" ++ rest) maxDepth)
  /-- Seven steps are left for what is put in its place. -/
  reached (found : String) : assigns.resolve (name ++ ":" ++ rest) = .ok found ↔
    ∃ count ≤ 7, assigns.Reaches count (joined location rest).toList found.toList ∧
      assigns.Final found.toList
  /-- The token is never left in place. -/
  gone (found : String) : assigns.resolve (name ++ ":" ++ rest) = .ok found →
    ¬ name.toList ++ [':'] <+: found.toList

theorem toList_named (name rest : String) :
    (name ++ ":" ++ rest).toList = name.toList ++ ':' :: rest.toList := by
  simp

theorem step_named (htoken : isToken name.toList = true) (hname : assigns.get? name = some location)
    (rest : List Char) :
    assigns.Step (name.toList ++ ':' :: rest) (joinRest location.toList rest) :=
  ⟨name.toList, rest, location, rfl, htoken, by rw [String.ofList_toList, hname], rfl⟩

/-- A token that names an assign is replaced before any rest. -/
theorem substitutes_of_isToken (htoken : isToken name.toList = true)
    (hname : assigns.get? name = some location) (rest : String) :
    assigns.Substitutes name location rest := by
  have hstep := step_named htoken hname rest.toList
  have hreached (found : String) : assigns.resolve (name ++ ":" ++ rest) = .ok found ↔
      ∃ count ≤ 7, assigns.Reaches count (joined location rest).toList found.toList ∧
        assigns.Final found.toList := by
    rw [resolve_eq_ok, toList_named, resolveWithin_succ hstep, resolveWithin_eq_some, joined,
      String.toList_ofList]
  refine ⟨?_, hreached, fun found hfound htext => ?_⟩
  · cases hresult : assigns.resolve (name ++ ":" ++ rest) with
    | ok found =>
      obtain ⟨count, hcount, hreaches, hfinal⟩ := (hreached found).1 hresult
      have hwithin := resolveWithin_eq_some.2 ⟨count, Nat.le_succ_of_le hcount, hreaches, hfinal⟩
      exact .inl (resolve_eq_ok.2 hwithin).symm
    | error error => exact .inr (congrArg Except.error (resolve_eq_error.1 hresult).2)
  · -- from a text that begins with the token a step would lead on
    obtain ⟨_, _, _, hfinal⟩ := (hreached found).1 hfound
    obtain ⟨more, hmore⟩ := htext
    rw [List.append_assoc] at hmore
    exact hfinal _ (hmore ▸ step_named htoken hname more)

/-- What stands before the first colon and is no token is left as it is. -/
theorem resolve_of_not_isToken (hcolon : ':' ∉ name.toList) (htoken : isToken name.toList = false)
    (rest : String) : assigns.resolve (name ++ ":" ++ rest) = .ok (name ++ ":" ++ rest) := by
  have hfinal : assigns.Final (name ++ ":" ++ rest).toList := by
    rintro next ⟨token, behind, _, hpath, htaken, _⟩
    have hcut : cutFirst ':' (name.toList ++ ':' :: rest.toList)
        = some (name.toList, rest.toList) := cutFirst_append hcolon
    rw [← toList_named, hpath, cutFirst_append (not_mem_of_isToken htaken (by decide))] at hcut
    obtain ⟨rfl, _⟩ := Prod.mk.inj (Option.some.inj hcut)
    rw [htoken] at htaken
    cases htaken
  exact resolve_eq_ok.2 (resolveWithin_final hfinal)

end Assigns

/-! ## Names that pass the check -/

namespace Settings

open Assigns (isToken isTokenChar)

variable {settings : Settings} {name : String}

theorem validate_eq_ok : settings.validate = .ok () ↔ settings.fault? = none := by
  rw [validate]
  cases settings.fault? with
  | none => exact ⟨fun _ => rfl, fun _ => rfl⟩
  | some fault => exact ⟨nofun, nofun⟩

/-- The check has been through all names. -/
theorem isAssignName_of_mem (hvalid : settings.validate = .ok ()) {location : String}
    (hentry : (name, location) ∈ settings.assigns.entries) : isAssignName name = true := by
  have hnone := validate_eq_ok.1 hvalid
  have hnames : (settings.assigns.keys.find? fun name => !isAssignName name) = none := by
    rw [fault?] at hnone
    split at hnone; · cases hnone
    split at hnone; · cases hnone
    split at hnone; · cases hnone
    exact Option.map_eq_none_iff.1 hnone
  have hname : name ∈ settings.assigns.keys := List.mem_map_of_mem (f := Prod.fst) hentry
  simpa using List.find?_eq_none.1 hnames name hname

theorem not_mem_of_isAssignName (h : isAssignName name = true) : ':' ∉ name.toList := by
  simpa using (Bool.and_eq_true_iff.1 h).2

/-- The characters of tokens are those of ASCII, of one byte each. -/
theorem utf8Size_of_isTokenChar {c : Char} (h : isTokenChar c = true) : c.utf8Size = 1 := by
  rw [Char.utf8Size_eq_one_iff]
  rcases Bool.or_eq_true_iff.1 h with h | hdash
  · rcases Bool.or_eq_true_iff.1 h with halnum | hline
    · rcases Bool.or_eq_true_iff.1 halnum with halpha | hdigit
      · rcases Bool.or_eq_true_iff.1 halpha with hupper | hlower
        · have hz : c.val ≤ 'Z'.val := (of_decide_eq_true hupper).2
          exact UInt32.le_trans hz (by decide)
        · have hz : c.val ≤ 'z'.val := of_decide_eq_true (Bool.and_eq_true_iff.1 hlower).2
          exact UInt32.le_trans hz (by decide)
      · have hnine : c.val ≤ '9'.val := of_decide_eq_true (Bool.and_eq_true_iff.1 hdigit).2
        exact UInt32.le_trans hnine (by decide)
    · rw [of_decide_eq_true hline]
      decide
  · rw [of_decide_eq_true hdash]
    decide

/-- A name that passes the check is a token exactly if its characters are those of tokens: of
such characters each has one byte, so two bytes are two characters. -/
theorem isToken_iff (h : isAssignName name = true) :
    isToken name.toList = true ↔ ∀ c ∈ name.toList, isTokenChar c = true := by
  rw [isToken, Bool.and_eq_true, List.all_eq_true, decide_eq_true_eq]
  refine ⟨And.right, fun hchars => ⟨?_, hchars⟩⟩
  have hsize : 2 ≤ name.utf8ByteSize := of_decide_eq_true (Bool.and_eq_true_iff.1 h).1
  cases hname : name.toList with
  | nil =>
    rw [String.toList_eq_nil_iff.1 hname] at hsize
    cases hsize
  | cons c cs =>
    cases cs with
    | nil =>
      have hone := utf8Size_of_isTokenChar (hchars c (hname ▸ List.mem_singleton_self c))
      rw [← String.ofList_toList (s := name), hname, ← String.singleton_eq_ofList,
        String.utf8ByteSize_singleton, hone] at hsize
      omega
    | cons d ds => simp

end Settings

/-! ## Built servers -/

namespace Server

variable {settings : Settings} {environment : Environment} {equipment : Equipment}
  {server : Server}

/-- A server that is built has every assign of its settings, in place of standard ones. -/
theorem get?_of_build (hbuild : build settings environment equipment = .ok server)
    {name location : String} (hentry : (name, location) ∈ settings.assigns.entries) :
    server.assigns.get? name = some location := by
  obtain ⟨_, _, rfl⟩ := Outcome.map_eq_ok.1 hbuild
  refine (Table.get?_foldl_insert _ settings.assigns name).trans ?_
  rw [Table.get?_of_mem hentry, Option.some_or]

theorem build_of_validate (hvalid : settings.validate = .ok ()) (environment : Environment)
    (equipment : Equipment) : ∃ server, build settings environment equipment = .ok server := by
  rw [build, hvalid]
  exact ⟨_, rfl⟩

/-- Valid settings make a server, with the standard assigns or without. An assign of theirs
whose name has only characters of tokens is substituted before any rest; one with any other
character in its name never is, and the text is taken as it stands. -/
theorem configured_assigns (hvalid : settings.validate = .ok ()) (environment : Environment)
    (equipment : Equipment) :
    ∃ server, build settings environment equipment = .ok server ∧
      ∀ name location, (name, location) ∈ settings.assigns.entries →
        ((∀ c ∈ name.toList, Assigns.isTokenChar c = true) →
          ∀ rest, server.assigns.Substitutes name location rest) ∧
        ((∃ c ∈ name.toList, Assigns.isTokenChar c = false) →
          ∀ rest, server.assigns.resolve (name ++ ":" ++ rest) = .ok (name ++ ":" ++ rest)) := by
  obtain ⟨server, hbuild⟩ := build_of_validate hvalid environment equipment
  refine ⟨server, hbuild, fun name location hentry => ?_⟩
  have hassign := Settings.isAssignName_of_mem hvalid hentry
  constructor
  · intro hchars rest
    exact Assigns.substitutes_of_isToken ((Settings.isToken_iff hassign).2 hchars)
      (get?_of_build hbuild hentry) rest
  · rintro ⟨c, hin, hc⟩ rest
    refine Assigns.resolve_of_not_isToken (Settings.not_mem_of_isAssignName hassign) ?_ rest
    cases htoken : Assigns.isToken name.toList with
    | false => rfl
    | true => exact absurd hin (Assigns.not_mem_of_isToken htoken hc)

/-- Settings with two assigns for one directory, of which one has a dot in its name. -/
def dottedSettings : Settings :=
  { root := some "/srv"
    assigns := (Table.empty.insert "data.v2" "root:data/").insert "data-v2" "root:data/" }

theorem configured_assigns_dotted :
    dottedSettings.validate = .ok () ∧
    ∃ server, build dottedSettings .bare = .ok server ∧
      (∀ rest, server.assigns.Substitutes "data-v2" "root:data/" rest) ∧
      ∀ rest,
        server.assigns.resolve ("data.v2" ++ ":" ++ rest) = .ok ("data.v2" ++ ":" ++ rest) := by
  have hvalid := Settings.validate_eq_ok.2 (by decide +kernel : dottedSettings.fault? = none)
  obtain ⟨server, hbuild, hall⟩ := configured_assigns hvalid .bare {}
  have hdash := hall "data-v2" "root:data/" (by decide +kernel)
  have hdot := hall "data.v2" "root:data/" (by decide +kernel)
  have hchars : "data-v2".toList.all Assigns.isTokenChar = true := by decide
  refine ⟨hvalid, server, hbuild, hdash.1 (List.all_eq_true.1 hchars), hdot.2 ⟨'.', ?_, ?_⟩⟩
  · decide
  · decide

/-- The check lets a name with a dot through, and the token is left in place. -/
theorem dotted_assign_ignored :
    dottedSettings.validate = .ok () ∧
    ("data.v2", "root:data/") ∈ dottedSettings.assigns.entries ∧
    ∃ server, build dottedSettings .bare = .ok server ∧
      server.assigns.resolve (Assigns.joined "root:data/" "a") = .ok "file:///srv/data/a" ∧
      server.assigns.resolve "data.v2:a" = .ok "data.v2:a" := by
  have hnone : dottedSettings.fault? = none := by decide +kernel
  refine ⟨Settings.validate_eq_ok.2 hnone, by decide +kernel, _, rfl, ?_, ?_⟩
  · exact Assigns.resolve_eq_ok.2 (by decide +kernel)
  · exact Assigns.resolve_eq_ok.2 (by decide +kernel)

end Server

end ArchiveVfs
