import ArchiveVfs.Proofs.Archive.Entry
import ArchiveVfs.Proofs.Archive.InnerPath

/-!
# Normal paths below mount points

What a normal path is can be seen from its text (`IsNormal`), and the normal form of a path is
such (`isNormal_normal`), of whatever text; it leaves normal paths as they are
(`isNormal_iff`). The normal form of two paths with a slash between them is made of the two
normal forms (`normal_slash`). So the path inside an archive is the normal form of all that
follows the mount point and a slash (`innerPath_behind_point`), however the mount point itself
ends in the text, and a normal path can be spelled there with any slashes and segments `.`
between its names (`LeadsInside`).
-/

namespace ArchiveVfs

open Text LocalPath

namespace EntryPath

variable {path : String}

/-- No segment of the path is empty or `.`, and it has no backslash. The empty path has no
segments. -/
structure IsNormal (path : String) : Prop where
  named : path = "" ∨ ∀ part ∈ path.toList.splitOn '/', part ≠ [] ∧ part ≠ ['.']
  backslash : '\\' ∉ path.toList

theorem isNormal_normal (name : String) : IsNormal (normal name) := by
  have htext : (normal name).toList = ['/'].intercalate (segments name.toList) :=
    String.toList_ofList
  have hall {segment : List Char} (hin : segment ∈ segments name.toList) := of_mem_segments hin
  refine ⟨?_, ?_⟩
  · -- a path without segments has one empty piece, but is the empty path
    by_cases hnone : segments name.toList = []
    · exact .inl ((ofParts_eq_empty (areParts_segments _)).2 hnone)
    · refine .inr fun part hpart => ?_
      rw [htext, List.splitOn_intercalate '/' (fun part hin => (hall hin).2.1) hnone] at hpart
      exact isName_iff.1 (hall hpart).1
  · rw [htext]
    exact map_slash_eq_self_iff.1 (slash_intercalate fun part hpart => (hall hpart).2.2)

theorem IsNormal.normal_eq (h : IsNormal path) : normal path = path := by
  rcases h.named with rfl | hnames
  · decide
  · have hpieces : segments path.toList = path.toList.splitOn '/' := by
      rw [segments, map_slash_eq_self_iff.2 h.backslash]
      exact List.filter_eq_self.2 fun part hin => isName_iff.2 (hnames part hin)
    rw [EntryPath.normal_eq, hpieces, ofParts, List.intercalate_splitOn, String.ofList_toList]

/-- The normal paths are those that are their own normal form. -/
theorem isNormal_iff : IsNormal path ↔ normal path = path := by
  constructor
  · exact IsNormal.normal_eq
  · intro h
    rw [← h]
    exact isNormal_normal path

/-- The normal form of two paths with a slash between them is made of theirs. -/
theorem normal_slash (front back : String) :
    normal (front ++ "/" ++ back) = joined (normal front) (normal back) := by
  have htext : (front ++ "/" ++ back).toList = front.toList ++ '/' :: back.toList := by simp
  rw [normal_eq, htext, segments_append,
    ofParts_joined (areParts_segments _) (areParts_segments _)]
  rfl

/-- Slashes and segments `.` between the names make no difference to the normal form. -/
theorem IsNormal.normal_of_names {spelling : String} (h : IsNormal path)
    (hnames : names spelling.toList = names path.toList) : normal spelling = path := by
  calc normal spelling
      = ofParts ((names spelling.toList).flatMap segments) := by
        rw [← segments_eq, EntryPath.normal_eq]
    _ = ofParts ((names path.toList).flatMap segments) := by rw [hnames]
    _ = normal path := by rw [← segments_eq, EntryPath.normal_eq]
    _ = path := h.normal_eq

end EntryPath

open EntryPath

namespace Archive

variable {archive : Archive}

/-- What follows the mount point and a slash is brought into normal form. The mount point may
be spelled with slashes at its end. -/
theorem innerPath_behind_point {point : String}
    (hpoint : archive.mountPoint.toList = dropTrailing '/' point.toList) (spelling : String) :
    archive.innerPath (point ++ "/" ++ spelling) = some (normal spelling) := by
  have htext : (point ++ "/" ++ spelling).toList = point.toList ++ '/' :: spelling.toList := by
    simp
  have htrimmed : archive.IsTrimmed := by
    rw [IsTrimmed, hpoint]
    exact getLast?_dropTrailing '/' _
  obtain ⟨count, hslashes⟩ := exists_dropTrailing '/' point.toList
  -- behind the text of the mount point come the slashes it was spelled with, and one more
  have hbelow : archive.Below (point ++ "/" ++ spelling) := by
    refine ⟨List.replicate count '/' ++ '/' :: spelling.toList, ?_, .inr ?_⟩
    · rw [htext, hpoint, ← List.append_assoc, ← hslashes]
    · cases count <;> rfl
  have hnames : names (point ++ "/" ++ spelling).toList
      = names archive.mountPoint.toList ++ names spelling.toList := by
    rw [htext, names_append, hpoint, names_dropTrailing]
  rw [innerPath_of_below htrimmed hbelow hnames, ← segments_eq]
  rfl

/-- How local paths lead inside an archive. -/
structure LeadsInside (archive : Archive) : Prop where
  /-- A normal path is found behind the mount point, however its names are spelled there. -/
  spelled : ∀ path spelling, IsNormal path → names spelling.toList = names path.toList →
    archive.innerPath (archive.mountPoint ++ "/" ++ spelling) = some path
  /-- The mount point leads inside, and what goes on behind it with a slash. -/
  below : ∀ localPath, (archive.innerPath localPath).isSome = true ↔ archive.Below localPath
  /-- What only shares its beginning with the mount point does not. -/
  beside : ∀ c rest, c ≠ '/' →
    archive.innerPath (archive.mountPoint ++ String.ofList (c :: rest)) = none
  /-- Inside, all paths are normal. -/
  inside : ∀ localPath path, archive.innerPath localPath = some path → IsNormal path

theorem IsTrimmed.leadsInside (htrimmed : archive.IsTrimmed) : archive.LeadsInside := by
  have hbelow (localPath : String) : (archive.innerPath localPath).isSome = true ↔
      archive.Below localPath := innerPath_isSome_iff htrimmed
  refine ⟨?_, hbelow, ?_, ?_⟩
  · intro path spelling hpath hnames
    rw [innerPath_behind_point (dropTrailing_eq_self htrimmed).symm, hpath.normal_of_names hnames]
  · intro c rest hc
    rw [← Option.not_isSome_iff_eq_none, hbelow]
    rintro ⟨behind, htext, hbehind⟩
    rw [String.toList_append, String.toList_ofList] at htext
    obtain rfl := List.append_cancel_left htext
    rcases hbehind with hnil | hhead
    · cases hnil
    · exact hc (Option.some.inj hhead)
  · intro localPath path h
    exact isNormal_iff.2 (normal_of_innerPath h)

end Archive

end ArchiveVfs
