import ArchiveVfs.Proofs.Archive.Indexing
import ArchiveVfs.Proofs.Archive.InnerPath
import ArchiveVfs.Proofs.Uri.Appending

/-!
# What an archive lists can be found in it

All paths of an index are in normal form (`normal_of_file`, `normal_of_directory`), so each name
that a directory lists is a single segment. A name behind a local path that leads to the directory
therefore leads to what was listed (`innerPath_of_listFiles`, `innerPath_of_listDirectories`).
-/

namespace ArchiveVfs

open Text

namespace EntryPath

/-- The last name of a normal path is its last segment. -/
theorem segments_of_within {directory name : String} (hname : IsPart name)
    (h : normal (within directory name) = within directory name) :
    isName name.toList = true ∧ segments name.toList = [name.toList] := by
  obtain hnone | ⟨front, last, hparts⟩ :=
    List.eq_nil_or_concat (segments (within directory name).toList)
  · rw [normal_eq, hnone] at h
    exact absurd h.symm (within_ne_empty hname)
  · rw [List.concat_eq_append] at hparts
    have hall := areParts_segments (within directory name).toList
    rw [hparts] at hall
    rw [normal_eq, hparts, ofParts_append hall] at h
    obtain ⟨_, rfl⟩ := within_inj hall.isPart hname h
    have hlast := of_mem_segments (hparts ▸ List.mem_append_right _ (List.mem_singleton_self last))
    have hsingle := segments_intercalate (List.forall_mem_singleton.2 hlast)
    rw [List.intercalate_singleton] at hsingle
    rw [String.toList_ofList]
    exact ⟨hlast.1, hsingle⟩

end EntryPath

namespace Index

open EntryPath

variable {items : List Zip.Item} {path : String}

theorem normal_of_file (h : ((ofItems items).file? path).isSome = true) : normal path = path := by
  obtain ⟨item, _, _, hnormal, _⟩ := isSome_file?_ofItems.1 h
  rw [← hnormal, normal_normal]

theorem normal_of_directory (h : (ofItems items).hasDirectory path = true) :
    normal path = path := by
  obtain rfl | ⟨item, _, ⟨_, hnormal⟩ | ⟨front, back, hwhole, _, rfl⟩⟩ := contains_ofItems.1 h
  · decide
  · rw [← hnormal, normal_normal]
  · have hfront : segments (['/'].intercalate front) = front :=
      segments_intercalate fun part hin => of_mem_segments (hwhole ▸ List.mem_append_left back hin)
    rw [normal_eq, ofParts, ofParts, String.toList_ofList, hfront]

end Index

namespace Archive

open EntryPath LocalPath

variable {archive : Archive} {path inner name : String}

theorem names_appendChars {path : List Char} (hroot : path.head? = some '/') (hname : IsPart name)
    (hsome : isName name.toList = true) :
    names (Uri.appendChars path name.toList) = names path ++ [name.toList] := by
  obtain ⟨directory, hpath, hwhole⟩ := Uri.exists_appendChars hroot hname
  have hdir : names path = names directory := by
    rcases hpath with rfl | rfl
    · rfl
    · exact names_slash directory
  have hlast : names name.toList = [name.toList] := by
    rw [names, List.splitOn_eq_singleton hname.2, List.filter_cons_of_pos hsome, List.filter_nil]
  rw [hwhole, names_append, hdir, hlast]

/-- A local path with a name behind it still goes on behind the mount point. -/
theorem Below.append (htrimmed : archive.IsTrimmed) (hroot : path.toList.head? = some '/')
    (h : archive.Below path) (segment : List Char) :
    archive.Below (String.ofList (Uri.appendChars path.toList segment)) := by
  obtain ⟨rest, hpath, hrest⟩ := h
  refine ⟨rest ++ ((if Uri.needsSlash path.toList then ['/'] else [])
    ++ dropLeading '/' segment), ?_, .inr ?_⟩
  · rw [String.toList_ofList, Uri.appendChars, List.append_assoc, ← List.append_assoc _ rest,
      ← hpath]
  · rcases hrest with rfl | hrest
    · -- the mount point has no slash at its end, so one is put there
      have hslash : Uri.needsSlash path.toList = true := by
        rw [List.append_nil] at hpath
        rw [IsTrimmed, ← hpath] at htrimmed
        have hsome : path.toList ≠ [] := fun hnil => by simp [hnil] at hroot
        simpa [Uri.needsSlash, htrimmed] using hsome
      rw [if_pos hslash]
      rfl
    · obtain ⟨more, rfl⟩ := List.head?_eq_some_iff.1 hrest
      rfl

/-- A name behind a local path that leads to a directory leads to what has the name there. -/
theorem innerPath_append (htrimmed : archive.IsTrimmed) (hroot : path.toList.head? = some '/')
    (hname : IsPart name) (hnormal : normal (within inner name) = within inner name)
    (h : archive.innerPath path = some inner) :
    archive.innerPath (String.ofList (Uri.appendChars path.toList name.toList))
      = some (within inner name) := by
  obtain ⟨hsome, hsegments⟩ := segments_of_within hname hnormal
  -- the longer path is inside as the shorter one is, and has one name more behind the mount point
  have hbelow := ((innerPath_isSome_iff htrimmed).1 (Option.isSome_of_eq_some h)).append htrimmed
    hroot name.toList
  obtain ⟨rest, hrest, rfl⟩ := innerPath_names h
  have hparts : AreParts (rest.flatMap segments ++ [name.toList]) := by
    intro part hin
    rcases List.mem_append.1 hin with hin | hin
    · obtain ⟨piece, _, hin⟩ := List.mem_flatMap.1 hin
      exact areParts_segments piece part hin
    · exact areParts_segments name.toList part (hsegments ▸ hin)
  have hnames : names (String.ofList (Uri.appendChars path.toList name.toList)).toList
      = names archive.mountPoint.toList ++ (rest ++ [name.toList]) := by
    rw [String.toList_ofList, names_appendChars hroot hname hsome, hrest, List.append_assoc]
  rw [innerPath_of_below htrimmed hbelow hnames, List.flatMap_append, List.flatMap_singleton,
    hsegments, ofParts_append hparts, String.ofList_toList]

section Listings

variable {items : List Zip.Item} {pattern : String}

theorem innerPath_of_listFiles (htrimmed : archive.IsTrimmed)
    (hindex : archive.index = .ofItems items) (hroot : path.toList.head? = some '/')
    (h : archive.innerPath path = some inner)
    (hname : name ∈ archive.index.listFiles inner pattern) :
    IsPart name ∧
      archive.innerPath (String.ofList (Uri.appendChars path.toList name.toList))
        = some (within inner name) ∧
      (archive.file? (within inner name)).isSome = true := by
  have hlinked : archive.index.Linked := hindex ▸ Index.linked_ofItems items
  obtain ⟨hpart, _, hfile⟩ := hlinked.mem_listFiles.1 hname
  have hnormal : normal (within inner name) = within inner name := by
    rw [hindex] at hfile
    exact Index.normal_of_file hfile
  exact ⟨hpart, innerPath_append htrimmed hroot hpart hnormal h, hfile⟩

theorem innerPath_of_listDirectories (htrimmed : archive.IsTrimmed)
    (hindex : archive.index = .ofItems items) (hroot : path.toList.head? = some '/')
    (h : archive.innerPath path = some inner)
    (hname : name ∈ archive.index.listDirectories inner pattern) :
    IsPart name ∧
      archive.innerPath (String.ofList (Uri.appendChars path.toList name.toList))
        = some (within inner name) ∧
      archive.hasDirectory (within inner name) = true := by
  have hlinked : archive.index.Linked := hindex ▸ Index.linked_ofItems items
  obtain ⟨hpart, _, hdir⟩ := hlinked.mem_listDirectories.1 hname
  have hnormal : normal (within inner name) = within inner name := by
    rw [hindex] at hdir
    exact Index.normal_of_directory hdir
  exact ⟨hpart, innerPath_append htrimmed hroot hpart hnormal h, hdir⟩

end Listings

end Archive

end ArchiveVfs
