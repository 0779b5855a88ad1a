import ArchiveVfs.Proofs.Archive.EntryPath
import ArchiveVfs.Proofs.Uri.Lineage
import ArchiveVfs.Proofs.Uri.RoundTrip
import ArchiveVfs.Uri.Entry

/-!
# Names put behind URIs

A name that is put behind a path from the root stands behind one slash (`exists_appendChars`),
so it is the file name of what is made (`fileName_append`). What identifies a local file does so
with a name behind it (`IsLocal.append`), and is read from what is written of it
(`IsLocal.parse_render`).
-/

namespace ArchiveVfs.Uri

open NativePath Text
open EntryPath (IsPart)

variable {uri : Uri} {path : List Char} {name : String}

theorem dropLeading_name (hname : IsPart name) : dropLeading '/' name.toList = name.toList :=
  dropLeading_eq_self fun hslash => hname.2 (List.mem_of_head? hslash)

/-- A path without one slash at its end. -/
def dropSlash (path : List Char) : List Char :=
  if path.getLast? = some '/' then path.dropLast else path

theorem dropSlash_cases (path : List Char) :
    path = dropSlash path ∨ path = dropSlash path ++ ['/'] := by
  rw [dropSlash]
  split
  next hlast => exact .inr (List.dropLast_append_getLast? '/' hlast).symm
  next => exact .inl rfl

/-- A name behind a path stands behind one slash. -/
theorem appendChars_name (hsome : path ≠ []) (hname : IsPart name) :
    appendChars path name.toList = dropSlash path ++ '/' :: name.toList := by
  rw [appendChars, dropLeading_name hname, dropSlash]
  by_cases hlast : path.getLast? = some '/'
  · have hpath := List.dropLast_append_getLast? '/' hlast
    rw [if_pos hlast, List.append_cons, hpath]
    simp [needsSlash, hlast]
  · simp [needsSlash, hlast, hsome]

theorem appendChars_nil (hname : IsPart name) : appendChars [] name.toList = name.toList :=
  dropLeading_name hname

/-- A name behind a path from the root stands behind one slash. -/
theorem exists_appendChars (hroot : path.head? = some '/') (hname : IsPart name) :
    ∃ directory, (path = directory ∨ path = directory ++ ['/']) ∧
      appendChars path name.toList = directory ++ '/' :: name.toList := by
  have hsome : path ≠ [] := List.ne_nil_of_mem (List.mem_of_head? hroot)
  exact ⟨dropSlash path, dropSlash_cases path, appendChars_name hsome hname⟩

theorem head?_appendChars (hroot : path.head? = some '/') (segment : List Char) :
    (appendChars path segment).head? = some '/' := by
  obtain ⟨rest, rfl⟩ := List.head?_eq_some_iff.1 hroot
  rfl

theorem getLast?_appendChars (hname : IsPart name) :
    (appendChars path name.toList).getLast? ≠ some '/' := by
  rw [appendChars, dropLeading_name hname, List.getLast?_append_of_ne_nil _ hname.toList_ne_nil]
  exact fun hslash => hname.2 (List.mem_of_getLast? hslash)

/-- What has a name behind it is cut there. -/
theorem cutLast_appendChars (hsome : path ≠ []) (hname : IsPart name) :
    cutLast '/' (dropTrailing '/' (appendChars path name.toList))
      = some (dropSlash path, name.toList) := by
  rw [dropTrailing_eq_self (getLast?_appendChars hname), appendChars_name hsome hname,
    cutLast_append hname.2]

theorem mem_appendChars {c : Char} {segment : List Char} (h : c ∈ appendChars path segment) :
    c ∈ path ∨ c = '/' ∨ c ∈ segment := by
  rw [appendChars, List.append_assoc, List.mem_append, List.mem_append] at h
  rcases h with hpath | hslash | hsegment
  · exact .inl hpath
  · split at hslash
    · exact .inr (.inl (List.mem_singleton.1 hslash))
    · cases hslash
  · exact .inr (.inr ((List.dropWhile_sublist _).subset hsegment))

theorem segments_appendChars (hroot : path.head? = some '/') (hname : IsPart name) :
    segments (appendChars path name.toList) = segments path ++ [name.toList] := by
  obtain ⟨directory, hpath, hwhole⟩ := exists_appendChars hroot hname
  have hdir : segments path = segments directory := by
    rcases hpath with rfl | rfl
    · rfl
    · rw [segments_append]
      exact List.append_nil _
  rw [hwhole, segments_append, hdir, segments_name hname.toList_ne_nil hname.2]

theorem toList_append (uri : Uri) (name : String) :
    (uri.append name).localPath.toList = appendChars uri.localPath.toList name.toList :=
  String.toList_ofList

/-- What was put behind a path is its last name. -/
theorem fileName_append (hroot : uri.localPath.toList.head? = some '/') (hname : IsPart name) :
    (uri.append name).fileName = name := by
  have hsome : uri.localPath.toList ≠ [] := List.ne_nil_of_mem (List.mem_of_head? hroot)
  rw [fileName, toList_append, fileNameChars, cutLast_appendChars hsome hname,
    String.ofList_toList]

/-- There is no more to the URI than a path from the root. -/
structure IsLocal (uri : Uri) : Prop where
  scheme : uri.isFile = true
  host : uri.host = ""
  port : uri.port = none
  query : uri.query = []
  fragment : uri.fragment = none
  root : uri.localPath.toList.head? = some '/'

namespace IsLocal

theorem append (h : uri.IsLocal) (name : String) : (uri.append name).IsLocal := by
  refine ⟨h.scheme, h.host, h.port, h.query, h.fragment, ?_⟩
  rw [toList_append]
  exact head?_appendChars h.root name.toList

theorem scheme_eq (h : uri.IsLocal) : uri.scheme = fileScheme :=
  of_decide_eq_true h.scheme

theorem readable (h : uri.IsLocal) : uri.Readable := by
  refine ⟨?_, ?_, ?_, .inr (.inl h.root)⟩
  · rw [h.scheme_eq]
    decide
  · rw [h.scheme_eq]
    exact List.all_eq_true.1 (by decide)
  · rw [h.host]
    exact List.forall_mem_nil _

theorem parse_render (h : uri.IsLocal) : parse uri.render = .ok uri := by
  refine Printable.parse_render ⟨h.readable, fun _ => ?_⟩
  rw [h.host]
  exact List.not_mem_nil

end IsLocal

end ArchiveVfs.Uri
