import ArchiveVfs.Assign
import ArchiveVfs.Proofs.Uri.Appending
import ArchiveVfs.Proofs.Uri.Grammar

/-!
# Native paths and their URIs

A clean path is anchored already (`IsClean.absolute?_eq`), so its URI has it for a local
path, with slashes in place of backslashes (`nativePath_ofNativePath`). The URI of a
local file is written with escapes; what is put behind it is read as it is, if it has no percent
sign and no lead of a query or fragment (`parse_below`).
-/

namespace ArchiveVfs

open Text

namespace NativePath

open EntryPath (slash map_slash_eq_self_iff)
open Uri (needsSlash)

variable {path : List Char}

/-- A path from the root with one way to be written: no segment is empty or a lone dot. -/
structure IsClean (path : List Char) : Prop where
  root : path.head? = some '/'
  dots : ['.'] ∉ path.splitOn '/'
  doubled : ¬ ['/', '/'] <:+: path
  trailing : path.getLast? = some '/' → path = ['/']

theorem head?_map_slash (h : path.head? = some '/') : (path.map slash).head? = some '/' := by
  obtain ⟨rest, rfl⟩ := List.head?_eq_some_iff.1 h
  rfl

/-! ## Segments put behind a path -/

theorem push_eq (path more : List Char) : push path more = push path [] ++ more := by
  simp [push]

/-- What is put behind a path does not hide a change of it. -/
theorem push_slash_eq_iff (more : List Char) :
    push (path.map slash) more = push path more ↔ '\\' ∉ path := by
  rw [← map_slash_eq_self_iff]
  constructor
  · intro h
    have hlength : (path.map slash).length = path.length := List.length_map _
    rw [push, push, List.append_assoc, List.append_assoc] at h
    exact (List.append_inj h hlength).1
  · intro h
    rw [h]

theorem push_nil_of_slash (hlast : path.getLast? = some '/') : push path [] = path := by
  simp [push, needsSlash, hlast]

theorem push_nil_of_not_slash (hsome : path ≠ []) (hlast : path.getLast? ≠ some '/') :
    push path [] = path ++ ['/'] := by
  simp [push, needsSlash, hsome, hlast]

theorem getLast?_push_nil (hsome : path ≠ []) : (push path []).getLast? = some '/' := by
  by_cases hlast : path.getLast? = some '/'
  · rw [push_nil_of_slash hlast, hlast]
  · rw [push_nil_of_not_slash hsome hlast, List.getLast?_concat]

theorem head?_push (h : path.head? = some '/') (more : List Char) :
    (push path more).head? = some '/' := by
  obtain ⟨rest, rfl⟩ := List.head?_eq_some_iff.1 h
  rfl

theorem needsSlash_append {name : List Char} (hsome : name ≠ []) (hslash : '/' ∉ name) :
    needsSlash (path ++ name) = true := by
  have hlast : name.getLast? ≠ some '/' := fun hlast => hslash (List.mem_of_getLast? hlast)
  rw [needsSlash, List.getLast?_append_of_ne_nil _ hsome]
  simp [hsome, hlast]

theorem foldl_push {names : List (List Char)} (hpath : needsSlash path = true)
    (hnames : ∀ name ∈ names, name ≠ [] ∧ '/' ∉ name) :
    names.foldl push path = path ++ names.flatMap ('/' :: ·) := by
  induction names generalizing path with
  | nil => exact (List.append_nil path).symm
  | cons name names ih =>
    obtain ⟨⟨hsome, hslash⟩, hrest⟩ := List.forall_mem_cons.1 hnames
    have hpush : push path name = path ++ ['/'] ++ name := by rw [push, if_pos hpath]
    rw [List.foldl_cons, hpush, ih (needsSlash_append hsome hslash) hrest, List.flatMap_cons]
    simp only [List.append_assoc, List.cons_append, List.nil_append]

/-- Behind the root, names are joined. -/
theorem foldl_push_root {names : List (List Char)} (hsome : names ≠ [])
    (hnames : ∀ name ∈ names, name ≠ [] ∧ '/' ∉ name) :
    names.foldl push ['/'] = '/' :: ['/'].intercalate names := by
  obtain ⟨name, names, rfl⟩ := List.exists_cons_of_ne_nil hsome
  obtain ⟨⟨hname, hslash⟩, hrest⟩ := List.forall_mem_cons.1 hnames
  have hpush : push ['/'] name = ['/'] ++ name := rfl
  rw [List.foldl_cons, hpush, foldl_push (needsSlash_append hname hslash) hrest, intercalate_cons]
  rfl

namespace IsClean

variable {rest : List Char}

/-- The segments of a clean path other than the root all name something. -/
theorem of_mem_splitOn (h : IsClean ('/' :: rest)) (hrest : rest ≠ []) :
    ∀ name ∈ rest.splitOn '/', isIdle name = false ∧ name ≠ [] ∧ '/' ∉ name := by
  intro name hin
  have hpieces : ('/' :: rest).splitOn '/' = [] :: rest.splitOn '/' := by
    rw [splitOn_cons, if_pos rfl]
  have hdot : name ≠ ['.'] := by
    rintro rfl
    exact h.dots (hpieces ▸ List.mem_cons_of_mem _ hin)
  have hsome : name ≠ [] := by
    rintro rfl
    have hbehind : [] ∈ (('/' :: rest).splitOn '/').tail := by rwa [hpieces]
    rcases of_nil_mem_tail_splitOn hbehind with hlast | hdoubled
    · exact hrest (List.cons.inj (h.trailing hlast)).2
    · exact h.doubled hdoubled
  exact ⟨by simp [isIdle, hsome, hdot], hsome, (Text.of_mem_splitOn hin).1⟩

theorem names_eq (h : IsClean ('/' :: rest)) (hrest : rest ≠ []) :
    names ('/' :: rest) = rest.splitOn '/' := by
  rw [names, splitOn_cons, if_pos rfl, List.filter_cons_of_neg (by decide), List.filter_eq_self]
  intro name hin
  rw [(h.of_mem_splitOn hrest name hin).1]
  rfl

/-- A clean path is anchored already. -/
theorem absolute?_eq (h : IsClean path) (current : List Char) :
    absolute? current path = some path := by
  obtain ⟨rest, rfl⟩ := List.head?_eq_some_iff.1 h.root
  cases rest with
  | nil => rfl
  | cons c rest =>
    have hrest : c :: rest ≠ [] := List.cons_ne_nil c rest
    have hlast : ('/' :: c :: rest).getLast? ≠ some '/' := fun hlast => by
      cases h.trailing hlast
    have hroot : rootOf ('/' :: c :: rest) = ['/'] := by
      have hfirst : '/' ≠ c := by
        rintro rfl
        exact h.doubled (List.prefix_append ['/', '/'] rest).isInfix
      simp [rootOf, List.isPrefixOf, hfirst]
    have hwhole : (names ('/' :: c :: rest)).foldl push ['/'] = '/' :: c :: rest := by
      rw [h.names_eq hrest, foldl_push_root (List.splitOn_ne_nil _ _)
        fun name hin => (h.of_mem_splitOn hrest name hin).2, List.intercalate_splitOn]
    have habsolute : isAbsolute ('/' :: c :: rest) = true := rfl
    simp only [absolute?, List.isEmpty_cons, Bool.false_eq_true, if_false, habsolute, if_true,
      hroot, hwhole, if_neg hlast]

end IsClean

end NativePath

/-! ## URIs of native paths -/

namespace Uri

open EntryPath (slash)
open NativePath

theorem isLocal_ofParts {path : String} (h : path.toList.head? = some '/') :
    (ofParts "file" "" path).IsLocal := by
  refine ⟨?_, rfl, rfl, rfl, rfl, h⟩
  show decide (lowerCase "file" = fileScheme) = true
  decide

/-- The URI of a native path is that of a local file, and nothing more. -/
theorem isLocal_ofNativePath (current path : String) : (ofNativePath current path).IsLocal := by
  apply isLocal_ofParts
  rw [String.toList_ofList]
  generalize ((NativePath.absolute? current.toList path.toList).getD path.toList).map
    (fun c => if c = '\\' then '/' else c) = whole
  by_cases hrooted : NativePath.isAbsolute whole = true
  · rw [if_pos hrooted]
    exact of_decide_eq_true hrooted
  · rw [if_neg hrooted]
    rfl

/-- Of a clean path the URI changes the backslashes. -/
theorem nativePath_ofNativePath {path : String} (h : IsClean path.toList) (current : String) :
    (ofNativePath current path).nativePath.toList = path.toList.map slash := by
  have hrooted : isAbsolute (path.toList.map slash) = true :=
    decide_eq_true (head?_map_slash h.root)
  rw [nativePath, ofNativePath, h.absolute?_eq, Option.getD_some]
  show (String.ofList (if isAbsolute (path.toList.map slash) = true then _ else _)).toList = _
  rw [if_pos hrooted, String.toList_ofList]
  rfl

/-! ## The written form -/

/-- The written form of a URI of a local file. -/
theorem IsLocal.toList_render {uri : Uri} (h : uri.IsLocal) : uri.render.toList
    = "file://".toList ++ Percent.encode Percent.inPath uri.localPath.toList := by
  have hauthority : uri.hasAuthority = true := hasAuthority_iff.2 (by simp [h.root])
  rw [h.readable.toList_render, authorityChars, if_pos hauthority, h.scheme_eq, h.host, h.port,
    h.query, h.fragment]
  simp [portChars, queryChars, fragmentChars, fileScheme]

theorem IsLocal.getLast?_render {uri : Uri} (h : uri.IsLocal) :
    uri.render.toList.getLast? = some '/' ↔ uri.localPath.toList.getLast? = some '/' := by
  obtain ⟨rest, hpath⟩ := List.head?_eq_some_iff.1 h.root
  have hsome : Percent.encode Percent.inPath uri.localPath.toList ≠ [] := by
    rw [hpath]
    exact List.cons_ne_nil _ _
  rw [h.toList_render, List.getLast?_append_of_ne_nil _ hsome]
  exact Percent.getLast?_encode (by decide) (by decide) _

/-- The parts of a text that identifies a local file. -/
def Parts.ofFile (path : List Char) (hroot : path.head? = some '/')
    (hchars : ∀ c ∈ path, c ≠ '?' ∧ c ≠ '#') : Parts where
  scheme := "file".toList
  authority := some []
  path := path
  query := none
  fragment := none
  scheme_chars := by decide
  authority_chars := List.forall_mem_nil _
  path_chars := hchars
  path_behind := fun _ => .inr hroot
  path_alone := nofun
  query_chars := List.not_mem_nil

/-- What identifies a local file is read with the escapes of its path undone. -/
theorem parse_file {path : List Char} (hroot : path.head? = some '/')
    (hchars : ∀ c ∈ path, c ≠ '?' ∧ c ≠ '#') :
    parse (String.ofList ("file://".toList ++ path))
      = .ok (ofParts "file" "" (String.ofList (Percent.decode path))) := by
  have htext : "file://".toList ++ path = (Parts.ofFile path hroot hchars).spell := by
    simp [Parts.spell, Parts.ofFile, led]
  have hscheme : isScheme (Parts.ofFile path hroot hchars).scheme = true := by
    show isScheme "file".toList = true
    decide
  rw [htext, Parts.parse_spell, if_pos hscheme]
  rfl

/-- Below a directory that is written with escapes, a rest without a percent sign or the lead of a
query or fragment stands for itself. -/
theorem parse_below {directory rest : List Char} (hroot : directory.head? = some '/')
    (hrest : ∀ c ∈ rest, c ≠ '%' ∧ c ≠ '?' ∧ c ≠ '#') :
    parse (String.ofList ("file://".toList ++ (Percent.encode Percent.inPath directory ++ rest)))
      = .ok (ofParts "file" "" (String.ofList (directory ++ rest))) := by
  have hpath : (Percent.encode Percent.inPath directory ++ rest).head? = some '/' := by
    obtain ⟨more, rfl⟩ := List.head?_eq_some_iff.1 hroot
    rfl
  have hmark : '?' ∉ Percent.encode Percent.inPath directory :=
    Percent.not_mem_encode (by decide) (by decide) directory
  have hnumber : '#' ∉ Percent.encode Percent.inPath directory :=
    Percent.not_mem_encode (by decide) (by decide) directory
  have hchars : ∀ c ∈ Percent.encode Percent.inPath directory ++ rest, c ≠ '?' ∧ c ≠ '#' := by
    intro c hin
    rcases List.mem_append.1 hin with hdir | hbehind
    · exact ⟨fun heq => hmark (heq ▸ hdir), fun heq => hnumber (heq ▸ hdir)⟩
    · exact (hrest c hbehind).2
  have hplain : '%' ∉ rest := fun hin => (hrest _ hin).1 rfl
  rw [parse_file hpath hchars,
    Percent.decode_encode_append Percent.reserves_inPath directory hplain]

/-- The location of a directory is its URI, written with a slash at its end. -/
theorem toList_directoryLocation (environment : Environment) (directory : String) :
    (Assigns.directoryLocation environment directory).toList = "file://".toList
      ++ Percent.encode Percent.inPath
          (push (ofNativePath environment.currentDirectory directory).nativePath.toList []) := by
  have hlocal := isLocal_ofNativePath environment.currentDirectory directory
  rw [Assigns.directoryLocation, nativePath]
  generalize ofNativePath environment.currentDirectory directory = uri at hlocal
  have hsome : uri.localPath.toList ≠ [] := fun hnil => by simpa [hnil] using hlocal.root
  by_cases hslash : uri.localPath.toList.getLast? = some '/'
  · rw [push_nil_of_slash hslash, ← hlocal.toList_render]
    exact congrArg String.toList (if_pos (hlocal.getLast?_render.2 hslash))
  · rw [push_nil_of_not_slash hsome hslash, Percent.encode, List.flatMap_append,
      ← List.append_assoc, ← Percent.encode, ← hlocal.toList_render]
    have hnot := mt hlocal.getLast?_render.1 hslash
    exact (congrArg String.toList (if_neg hnot)).trans String.toList_append

end Uri

end ArchiveVfs
