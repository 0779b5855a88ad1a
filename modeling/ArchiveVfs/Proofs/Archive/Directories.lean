import ArchiveVfs.Archive.Index
import ArchiveVfs.Proofs.Archive.EntryPath
import Mathlib.Data.List.Induction
import Mathlib.Data.List.Infix

/-!
# The directories of an index

An index has files and directories by path, and in every directory the names of what lies in it.
`Index.Linked` says that the two fit: a name is in a directory exactly if there is a file or
directory of that name, and whatever lies in a directory has this directory. Putting in a
directory or a file, at any path in normal form, keeps this (`Linked.addDirectory`,
`Linked.addFile`) and brings only the directories around it (`contains_makeDirectory`).
-/

namespace ArchiveVfs.Index

open EntryPath

variable {index : Index} {path name other : String} {parts : List (List Char)}

/-- Paths and the names in directories fit. -/
structure Linked (index : Index) : Prop where
  /-- The root is there. -/
  root : index.directories.contains "" = true
  /-- Files lie in directories. -/
  aroundFile {path name : String} : IsPart name →
    index.files.contains (within path name) = true → index.directories.contains path = true
  /-- Directories lie in directories. -/
  aroundDirectory {path name : String} : IsPart name →
    index.directories.contains (within path name) = true → index.directories.contains path = true
  /-- A directory names its files. -/
  fileNames {path : String} {directory : Directory} : index.directories.get? path = some directory →
    ∀ name, directory.files.contains name = true ↔
      IsPart name ∧ index.files.contains (within path name) = true
  /-- A directory names its directories. -/
  directoryNames {path : String} {directory : Directory} :
    index.directories.get? path = some directory →
    ∀ name, directory.directories.contains name = true ↔
      IsPart name ∧ index.directories.contains (within path name) = true

theorem linked_empty : Linked {} := by
  have hroot {path : String} {directory : Directory}
      (h : ({} : Index).directories.get? path = some directory) : directory = {} := by
    rw [Table.get?_insert] at h
    split at h
    · exact (Option.some.inj h).symm
    · cases h
  have hnone {path name : String} (hname : IsPart name) :
      ¬ ({} : Index).directories.contains (within path name) = true := by
    rw [Table.contains_insert]
    rintro (hempty | h)
    · exact within_ne_empty hname hempty
    · cases h
  constructor
  case root => decide
  case aroundFile => exact fun _ h => nomatch h
  case aroundDirectory => exact fun hname h => absurd h (hnone hname)
  case fileNames =>
    intro path directory hdir name
    rw [hroot hdir]
    exact ⟨nofun, nofun⟩
  case directoryNames =>
    intro path directory hdir name
    rw [hroot hdir]
    exact ⟨nofun, fun h => absurd h.2 (hnone h.1)⟩

/-! ## One directory or file -/

/-- One more name in a directory goes with one more path in it. -/
theorem contains_insert_name {names : Table Unit} {there : Prop} {part : String}
    (hname : IsPart name) (h : names.contains part = true ↔ IsPart part ∧ there) :
    (names.insert name ()).contains part = true ↔
      IsPart part ∧ (within path part = within path name ∨ there) := by
  rw [Table.contains_insert, h]
  constructor
  · rintro (rfl | ⟨hpart, hthere⟩)
    · exact ⟨hname, .inl rfl⟩
    · exact ⟨hpart, .inr hthere⟩
  · rintro ⟨hpart, heq | hthere⟩
    · exact .inl (within_inj hpart hname heq).2
    · exact .inr ⟨hpart, hthere⟩

/-- The other directories have the same names, as none of their paths is new. -/
theorem and_other_directory {there : Prop} {around part : String} (hname : IsPart name)
    (hother : ¬ path = around) : IsPart part ∧ there ↔
      IsPart part ∧ (within around part = within path name ∨ there) := by
  refine and_congr_right fun hpart => (or_iff_right fun heq => hother ?_).symm
  exact (within_inj hpart hname heq).1.symm

/-- The index with an empty directory of that name in another. -/
def putDirectory (index : Index) (path name : String) : Index :=
  { index with
    directories :=
      (index.directories.adjust path (·.addDirectory name)).insert (within path name) {} }

/-- The index with a file of that name in a directory. -/
def putFile (index : Index) (path name : String) (entry : Entry) : Index where
  files := index.files.insert (within path name) entry
  directories := index.directories.adjust path (·.addFile name)

theorem contains_putDirectory : (index.putDirectory path name).directories.contains other = true ↔
    other = within path name ∨ index.directories.contains other = true := by
  rw [putDirectory, Table.contains_insert, Table.contains_adjust]

theorem directory_putDirectory : (index.putDirectory path name).directories.get? other =
    if within path name = other then some {}
    else if path = other then (index.directories.get? other).map (·.addDirectory name)
    else index.directories.get? other := by
  rw [putDirectory, Table.get?_insert, Table.get?_adjust]

/-- A new directory has nothing in it, and its name is added where it lies. -/
theorem Linked.putDirectory (h : Linked index) (hname : IsPart name)
    (hpath : index.directories.contains path = true)
    (hnew : ¬ index.directories.contains (within path name) = true) :
    Linked (index.putDirectory path name) := by
  have hother : path ≠ within path name := fun heq => hnew (heq ▸ hpath)
  constructor
  case root => exact contains_putDirectory.2 (.inr h.root)
  case aroundFile =>
    exact fun hpart hfile => contains_putDirectory.2 (.inr (h.aroundFile hpart hfile))
  case aroundDirectory =>
    intro around part hpart hdir
    rcases contains_putDirectory.1 hdir with heq | hdir
    · rw [(within_inj hpart hname heq).1]
      exact contains_putDirectory.2 (.inr hpath)
    · exact contains_putDirectory.2 (.inr (h.aroundDirectory hpart hdir))
  case fileNames =>
    intro around directory hdir part
    rw [directory_putDirectory] at hdir
    split at hdir
    next heq =>
      -- the new directory is empty: a file in it would have had it there before
      obtain rfl := Option.some.inj hdir
      exact ⟨nofun, fun hin => absurd (heq ▸ h.aroundFile hin.1 hin.2) hnew⟩
    next =>
      split at hdir
      next heq =>
        obtain ⟨old, hold, rfl⟩ := Option.map_eq_some_iff.1 hdir
        exact h.fileNames hold part
      next => exact h.fileNames hdir part
  case directoryNames =>
    intro around directory hdir part
    rw [directory_putDirectory] at hdir
    rw [contains_putDirectory]
    split at hdir
    next heq =>
      obtain rfl := Option.some.inj hdir
      refine ⟨nofun, ?_⟩
      rintro ⟨hpart, hself | hin⟩
      · exact absurd ((within_inj hpart hname hself).1.symm.trans heq.symm) hother
      · exact absurd (heq ▸ h.aroundDirectory hpart hin) hnew
    next hne =>
      split at hdir
      next heq =>
        obtain ⟨old, hold, rfl⟩ := Option.map_eq_some_iff.1 hdir
        rw [← heq] at hold ⊢
        exact contains_insert_name hname (h.directoryNames hold part)
      next hne =>
        rw [h.directoryNames hdir part]
        exact and_other_directory hname hne

theorem Linked.putFile (h : Linked index) (hname : IsPart name)
    (hpath : index.directories.contains path = true) (entry : Entry) :
    Linked (index.putFile path name entry) := by
  have hdirs (other : String) :
      (index.putFile path name entry).directories.contains other
        = index.directories.contains other :=
    Table.contains_adjust ..
  constructor
  case root => rw [hdirs, h.root]
  case aroundFile =>
    intro around part hpart hfile
    rw [hdirs]
    rcases (Table.contains_insert ..).1 hfile with heq | hfile
    · rw [(within_inj hpart hname heq).1, hpath]
    · exact h.aroundFile hpart hfile
  case aroundDirectory =>
    intro around part hpart hdir
    rw [hdirs] at hdir ⊢
    exact h.aroundDirectory hpart hdir
  case fileNames =>
    intro around directory hdir part
    rw [Index.putFile, Table.get?_adjust] at hdir
    rw [Index.putFile, Table.contains_insert]
    split at hdir
    next heq =>
      obtain ⟨old, hold, rfl⟩ := Option.map_eq_some_iff.1 hdir
      rw [← heq] at hold ⊢
      exact contains_insert_name hname (h.fileNames hold part)
    next hne =>
      rw [h.fileNames hdir part]
      exact and_other_directory hname hne
  case directoryNames =>
    intro around directory hdir part
    rw [hdirs]
    rw [Index.putFile, Table.get?_adjust] at hdir
    split at hdir
    next =>
      obtain ⟨old, hold, rfl⟩ := Option.map_eq_some_iff.1 hdir
      exact h.directoryNames hold part
    next => exact h.directoryNames hdir part

/-! ## All directories around a path -/

theorem makeDirectory_there {directories : Table Directory}
    (h : path = "" ∨ directories.contains path = true) :
    makeDirectory directories path = directories := by
  have hthere : path.toList = [] ∨ directories.contains path = true :=
    h.imp_left String.toList_eq_nil_iff.2
  rw [makeDirectory, dif_pos hthere]

theorem addDirectory_there (h : path = "" ∨ index.directories.contains path = true) :
    index.addDirectory path = index := by
  rw [addDirectory, makeDirectory_there h]

/-- A new directory is put into the directory that holds it, which is made first. -/
theorem addDirectory_within (hname : IsPart name)
    (hnew : ¬ index.directories.contains (within path name) = true) :
    index.addDirectory (within path name) = (index.addDirectory path).putDirectory path name := by
  have hnot : ¬ ((within path name).toList = [] ∨
      index.directories.contains (within path name) = true) := by
    rintro (hnil | hthere)
    · exact within_ne_empty hname (String.toList_eq_nil_iff.1 hnil)
    · exact hnew hthere
  rw [addDirectory, makeDirectory, dif_neg hnot, split_within hname]
  rfl

theorem Linked.contains_front (h : Linked index) (hparts : AreParts parts)
    (hthere : index.directories.contains (ofParts parts) = true) {front : List (List Char)}
    (hfront : front <+: parts) : index.directories.contains (ofParts front) = true := by
  induction parts using List.reverseRecOn with
  | nil =>
    obtain rfl := List.prefix_nil.1 hfront
    exact hthere
  | append_singleton parts part ih =>
    rcases List.prefix_concat_iff.1 hfront with rfl | hfront
    · exact hthere
    · rw [ofParts_append hparts] at hthere
      exact ih hparts.append.1 (h.aroundDirectory hparts.isPart hthere) hfront

/-- Adding a directory adds it and the directories around it. -/
theorem Linked.contains_addDirectory (h : Linked index) (hparts : AreParts parts) :
    (index.addDirectory (ofParts parts)).directories.contains other = true ↔
      index.directories.contains other = true ∨
        ∃ front, front <+: parts ∧ other = ofParts front := by
  induction parts using List.reverseRecOn with
  | nil =>
    rw [ofParts_nil, addDirectory_there (.inl rfl)]
    refine (or_iff_left_of_imp ?_).symm
    rintro ⟨front, hfront, rfl⟩
    obtain rfl := List.prefix_nil.1 hfront
    exact h.root
  | append_singleton parts part ih =>
    by_cases hthere : index.directories.contains (ofParts (parts ++ [part])) = true
    · rw [addDirectory_there (.inr hthere)]
      refine (or_iff_left_of_imp ?_).symm
      rintro ⟨front, hfront, rfl⟩
      exact h.contains_front hparts hthere hfront
    · rw [ofParts_append hparts] at hthere
      rw [ofParts_append hparts, addDirectory_within hparts.isPart hthere, contains_putDirectory,
        ih hparts.append.1, ← ofParts_append hparts]
      constructor
      · rintro (heq | hold | ⟨front, hfront, heq⟩)
        · exact .inr ⟨_, List.prefix_refl _, heq⟩
        · exact .inl hold
        · exact .inr ⟨front, hfront.trans (List.prefix_append _ _), heq⟩
      · rintro (hold | ⟨front, hfront, heq⟩)
        · exact .inr (.inl hold)
        · rcases List.prefix_concat_iff.1 hfront with rfl | hfront
          · exact .inl heq
          · exact .inr (.inr ⟨front, hfront, heq⟩)

theorem Linked.addDirectory (h : Linked index) (hparts : AreParts parts) :
    Linked (index.addDirectory (ofParts parts)) := by
  induction parts using List.reverseRecOn with
  | nil =>
    rw [ofParts_nil, addDirectory_there (.inl rfl)]
    exact h
  | append_singleton parts part ih =>
    by_cases hthere : index.directories.contains (ofParts (parts ++ [part])) = true
    · rw [addDirectory_there (.inr hthere)]
      exact h
    · have hfront := hparts.append.1
      have hpath := (h.contains_addDirectory hfront).2 (.inr ⟨parts, List.prefix_refl _, rfl⟩)
      have hnew : ¬ (index.addDirectory (ofParts parts)).directories.contains
          (ofParts (parts ++ [part])) = true := by
        rw [h.contains_addDirectory hfront]
        rintro (hold | ⟨front, hinitial, heq⟩)
        · exact hthere hold
        · -- the directories around a path are shorter
          obtain rfl := ofParts_inj hparts (fun _ hin => hfront _ (hinitial.subset hin)) heq
          have hlength := hinitial.length_le
          rw [List.length_append, List.length_singleton] at hlength
          omega
      rw [ofParts_append hparts] at hthere hnew ⊢
      rw [addDirectory_within hparts.isPart hthere]
      exact (ih hfront).putDirectory hparts.isPart hpath hnew

theorem addFile_within {entry : Entry} (hname : IsPart name)
    (hpath : entry.path = within path name) :
    index.addFile entry = (index.addDirectory path).putFile path name entry := by
  rw [addFile, hpath, split_within hname]
  rfl

section

variable {part : List Char} {entry : Entry}

theorem Linked.contains_addFile (h : Linked index) (hparts : AreParts (parts ++ [part]))
    (hpath : entry.path = ofParts (parts ++ [part])) :
    (index.addFile entry).directories.contains other = true ↔
      index.directories.contains other = true ∨
        ∃ front, front <+: parts ∧ other = ofParts front := by
  rw [ofParts_append hparts] at hpath
  rw [addFile_within hparts.isPart hpath, Index.putFile, Table.contains_adjust,
    h.contains_addDirectory hparts.append.1]

theorem Linked.addFile (h : Linked index) (hparts : AreParts (parts ++ [part]))
    (hpath : entry.path = ofParts (parts ++ [part])) : Linked (index.addFile entry) := by
  have hfront := hparts.append.1
  have hthere := (h.contains_addDirectory hfront).2 (.inr ⟨parts, List.prefix_refl _, rfl⟩)
  rw [ofParts_append hparts] at hpath
  rw [addFile_within hparts.isPart hpath]
  exact (h.addDirectory hfront).putFile hparts.isPart hthere entry

end

end ArchiveVfs.Index
