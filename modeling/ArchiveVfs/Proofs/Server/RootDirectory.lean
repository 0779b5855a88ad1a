import ArchiveVfs.Proofs.Assign.Composition
import ArchiveVfs.Proofs.Uri.NativePath
import ArchiveVfs.Server.Basic

/-!
# The root directory and what lies below it

The assigns of a server that is built keep the root directory under `root` and lead there from
`home`, unless the settings have other locations for these names (`Rooted`). The location of
a directory is its URI, written with escapes, so that a rest behind it is read as it is.
What is named below the root directory thus has for its native path that of the directory with the
rest behind it, and so has the URI of a path by itself, but for backslashes: these are
taken for slashes (`nativePath_round_trip`, `nativePath_backslash`).
-/

namespace ArchiveVfs

open Text

/-! ## The assigns that lead to the root directory -/

namespace Assigns

variable {assigns : Assigns} {location : String}

/-- The root directory is found by its name and by the alias, and what is found is no path below
a further assign. -/
structure Rooted (assigns : Assigns) (location : String) : Prop where
  root : assigns.get? "root" = some location
  home : assigns.get? "home" = some "root:"
  file : assigns.get? "file" = none

theorem rooted_withStandard (environment : Environment) (root : String) :
    (withStandard .empty environment root).Rooted (directoryLocation environment root) := by
  rw [withStandard]
  cases environment.userDirectory with
  | none => constructor <;> simp [Table.get?_insert]
  | some directory => constructor <;> simp [Table.get?_insert]

namespace Rooted

theorem insert (h : assigns.Rooted location) {name : String}
    (hname : ∀ other ∈ ["root", "home", "file"], name ≠ other) (value : String) :
    Rooted (Table.insert assigns name value) location := by
  refine ⟨?_, ?_, ?_⟩
  · rw [Table.get?_insert, if_neg (hname _ (by decide)), h.root]
  · rw [Table.get?_insert, if_neg (hname _ (by decide)), h.home]
  · rw [Table.get?_insert, if_neg (hname _ (by decide)), h.file]

/-- Assigns of other names change nothing about it. -/
theorem foldl_insert (h : assigns.Rooted location) {entries : List (String × String)}
    (hnames : ∀ entry ∈ entries, ∀ other ∈ ["root", "home", "file"], entry.1 ≠ other) :
    Rooted (entries.foldl (fun assigns entry => Table.insert assigns entry.1 entry.2) assigns)
      location := by
  induction entries generalizing assigns with
  | nil => exact h
  | cons entry entries ih =>
    obtain ⟨hname, hrest⟩ := List.forall_mem_cons.1 hnames
    exact ih (h.insert hname entry.2) hrest

/-- No step leads on from the URI of a file. -/
theorem final (h : assigns.Rooted location) (rest : List Char) :
    assigns.Final ("file".toList ++ ':' :: rest) := by
  have hsplit : splitToken ("file".toList ++ ':' :: rest) = some ("file".toList, rest) :=
    splitToken_eq_some.2 ⟨rfl, by decide⟩
  rw [← step?_eq_none, step?, hsplit]
  simp only [String.ofList_toList, h.file, Option.map_none]

/-- A rest behind the name of the root directory or its alias is put behind the location. -/
theorem resolve (h : assigns.Rooted location) {written : List Char}
    (hfile : location.toList = "file".toList ++ ':' :: written)
    (hslash : location.toList.getLast? = some '/') {name rest : String}
    (hname : name ∈ ["root", "home"]) (hrest : rest.toList.head? ≠ some '/') :
    assigns.resolve (name ++ ":" ++ rest)
      = .ok (String.ofList (location.toList ++ rest.toList)) := by
  have hroot : assigns.Step ("root".toList ++ ':' :: rest.toList)
      (location.toList ++ rest.toList) := by
    refine ⟨"root".toList, rest.toList, location, rfl, by decide, ?_, ?_⟩
    · rw [String.ofList_toList, h.root]
    · rw [joinRest_of_separated (by rw [separator_eq, if_pos (.inl hslash)]) hrest]
  have hhome : assigns.Step ("home".toList ++ ':' :: rest.toList)
      ("root".toList ++ ':' :: rest.toList) := by
    refine ⟨"home".toList, rest.toList, "root:", rfl, by decide, ?_, ?_⟩
    · rw [String.ofList_toList, h.home]
    · rw [joinRest_of_separated (by decide) hrest]
      rfl
  have hfinal : assigns.Final (location.toList ++ rest.toList) := by
    rw [hfile, List.append_assoc]
    exact h.final (written ++ rest.toList)
  have htext : (name ++ ":" ++ rest).toList = name.toList ++ ':' :: rest.toList := by simp
  apply resolve_of_some
  rw [htext]
  rcases List.mem_pair.1 hname with rfl | rfl
  · rw [resolveWithin_succ hroot, resolveWithin_final hfinal]
  · rw [resolveWithin_succ hhome, resolveWithin_succ hroot, resolveWithin_final hfinal]

end Rooted

end Assigns

/-! ## What lies below the root directory -/

namespace Server

open EntryPath (slash map_slash_eq_self_iff)
open NativePath

variable {settings : Settings} {environment : Environment} {equipment : Equipment}
  {server : Server}

/-- A server is built with the assigns that lead to the root directory, unless its settings have
locations for their names. -/
theorem rooted_of_build (hstandard : equipment.standardAssigns = true)
    (hnames : ∀ name ∈ ["root", "home", "file"], settings.assigns.get? name = none)
    (hbuild : build settings environment equipment = .ok server) :
    server.assigns.Rooted
      (Assigns.directoryLocation environment (settings.rootDirectory environment)) := by
  obtain ⟨_, _, rfl⟩ := Outcome.map_eq_ok.1 hbuild
  simp only [hstandard, if_true]
  have hstarts := Assigns.rooted_withStandard environment (settings.rootDirectory environment)
  refine hstarts.foldl_insert fun entry hentry other hother => ?_
  exact Table.ne_of_find?_eq_none (hnames other hother) entry hentry

/-- What is named below the root directory, or below the alias, has the native path of the
directory's URI with the rest behind it. -/
theorem resolve_below_root (hstandard : equipment.standardAssigns = true)
    (hnames : ∀ name ∈ ["root", "home", "file"], settings.assigns.get? name = none)
    (hbuild : build settings environment equipment = .ok server) {name rest : String}
    (hname : name ∈ ["root", "home"]) (hrest : rest.toList.head? ≠ some '/')
    (hplain : ∀ c ∈ rest.toList, c ≠ '%' ∧ c ≠ '?' ∧ c ≠ '#') {directory : Uri}
    (hdir : directory
      = .ofNativePath environment.currentDirectory (settings.rootDirectory environment)) :
    server.resolve (name ++ ":" ++ rest)
      = .ok (.ofParts "file" ""
        (String.ofList (push directory.nativePath.toList rest.toList))) := by
  have hrooted := rooted_of_build hstandard hnames hbuild
  have hlocation := Uri.toList_directoryLocation environment (settings.rootDirectory environment)
  rw [← hdir] at hlocation
  have hpath : directory.nativePath.toList.head? = some '/' := by
    rw [hdir]
    exact (Uri.isLocal_ofNativePath _ _).root
  have hsome : directory.nativePath.toList ≠ [] := fun hnil => by simp [hnil] at hpath
  have hfront := head?_push hpath []
  have hslash : (Percent.encode Percent.inPath (push directory.nativePath.toList [])).getLast?
      = some '/' :=
    (Percent.getLast?_encode (by decide) (by decide) _).2 (getLast?_push_nil hsome)
  have hresolve := hrooted.resolve hlocation (by
    rw [hlocation, List.getLast?_append, hslash, Option.some_or]) hname hrest
  have hparse := Uri.parse_below hfront hplain
  rw [← List.append_assoc, ← hlocation, ← push_eq] at hparse
  rw [resolve, hresolve, Outcome.ok_bind, hparse]
  rfl

/-- What a clean native path names is found again through its URI, and below the root
directory through the assigns, but for backslashes: these are taken for slashes. The native path
of what is read from the written URI is the path itself exactly if it has none, and
so is that of what is named below the path as the root directory, with the rest behind it. -/
theorem nativePath_round_trip {path : String} (hclean : IsClean path.toList) :
    (∀ current, ∃ uri, Uri.parse (Uri.ofNativePath current path).render = .ok uri ∧
      uri.IsLocal ∧ uri.nativePath.toList = path.toList.map slash ∧
      (uri.nativePath = path ↔ '\\' ∉ path.toList)) ∧
    ∀ (settings : Settings) (environment : Environment) (equipment : Equipment) (server : Server),
      settings.root = some path → equipment.standardAssigns = true →
      (∀ name ∈ ["root", "home", "file"], settings.assigns.get? name = none) →
      build settings environment equipment = .ok server →
      ∀ name ∈ ["root", "home"], ∀ rest : String, rest.toList.head? ≠ some '/' →
        (∀ c ∈ rest.toList, c ≠ '%' ∧ c ≠ '?' ∧ c ≠ '#') →
        ∃ uri, server.resolve (name ++ ":" ++ rest) = .ok uri ∧ uri.IsLocal ∧
          uri.nativePath.toList = push (path.toList.map slash) rest.toList ∧
          (uri.nativePath.toList = push path.toList rest.toList ↔ '\\' ∉ path.toList) := by
  have hslashes := head?_map_slash hclean.root
  constructor
  · intro current
    have hnative := Uri.nativePath_ofNativePath hclean current
    have hlocal := Uri.isLocal_ofNativePath current path
    refine ⟨_, hlocal.parse_render, hlocal, hnative, ?_⟩
    rw [← String.toList_inj, hnative]
    exact map_slash_eq_self_iff
  · intro settings environment equipment server hroot hstandard hnames hbuild name hname rest hrest
      hplain
    have hdir : settings.rootDirectory environment = path := by
      rw [Settings.rootDirectory, hroot, Option.getD_some]
    have hresolve := resolve_below_root hstandard hnames hbuild hname hrest hplain rfl
    rw [hdir, Uri.nativePath_ofNativePath hclean] at hresolve
    have hnative : (String.ofList (push (path.toList.map slash) rest.toList)).toList
        = push (path.toList.map slash) rest.toList := String.toList_ofList
    refine ⟨_, hresolve, Uri.isLocal_ofParts ?_, hnative, ?_⟩
    · rw [hnative]
      exact head?_push hslashes rest.toList
    · show (String.ofList (push (path.toList.map slash) rest.toList)).toList = _ ↔ _
      rw [hnative, push_slash_eq_iff]

/-- A directory whose name needs escapes, and a file below it with a colon in its name, which is
found through the alias. -/
theorem nativePath_round_trip_escaped :
    IsClean "/my#game 100%&".toList ∧
    (∃ uri, Uri.parse (Uri.ofNativePath "/" "/my#game 100%&").render = .ok uri ∧
      uri.nativePath = "/my#game 100%&") ∧
    ∃ server, build { root := some "/my#game 100%&" } .bare = .ok server ∧
      ∃ uri, server.resolve "home:a:b c.txt" = .ok uri ∧
        uri.nativePath = "/my#game 100%&/a:b c.txt" := by
  have hclean : IsClean "/my#game 100%&".toList :=
    ⟨by decide, by decide, by decide +kernel, by decide⟩
  have hplain : '\\' ∉ "/my#game 100%&".toList := by decide
  obtain ⟨server, hbuild⟩ : ∃ server,
      build { root := some "/my#game 100%&" } .bare = .ok server := ⟨_, rfl⟩
  have htext : "home" ++ ":" ++ "a:b c.txt" = "home:a:b c.txt" := by decide
  obtain ⟨halone, hbelow⟩ := nativePath_round_trip hclean
  obtain ⟨uri, hparse, _, _, hsame⟩ := halone "/"
  refine ⟨hclean, ⟨uri, hparse, hsame.2 hplain⟩, server, hbuild, ?_⟩
  obtain ⟨uri, hresolve, _, _, hsame⟩ := hbelow { root := some "/my#game 100%&" }
    .bare {} server rfl rfl (by decide) hbuild "home" (by decide) "a:b c.txt"
    (by decide) (by simp)
  rw [htext] at hresolve
  refine ⟨uri, hresolve, String.toList_inj.1 ((hsame.2 hplain).trans ?_)⟩
  decide

/-- A backslash is a character of file names, and behind the name of the root directory it is kept,
but in the root directory itself it is not. -/
theorem nativePath_backslash :
    IsClean "/a\\b".toList ∧
    (∃ uri, Uri.parse (Uri.ofNativePath "/" "/a\\b").render = .ok uri ∧
      uri.nativePath = "/a/b" ∧ uri.nativePath ≠ "/a\\b") ∧
    ∃ server, build { root := some "/a\\b" } .bare = .ok server ∧
      ∃ uri, server.resolve "root:c\\d" = .ok uri ∧
        uri.nativePath = "/a/b/c\\d" ∧ uri.nativePath ≠ "/a\\b/c\\d" := by
  have hclean : IsClean "/a\\b".toList := ⟨by decide, by decide, by decide +kernel, by decide⟩
  have hread : Uri.parse (Uri.ofNativePath "/" "/a\\b").render
      = .ok (.ofParts "file" "" "/a/b") := by decide +kernel
  refine ⟨hclean, ⟨_, hread, rfl, by decide⟩, _, rfl, ?_⟩
  exact ⟨.ofParts "file" "" "/a/b/c\\d", by decide +kernel, rfl, by decide⟩

end Server

end ArchiveVfs
