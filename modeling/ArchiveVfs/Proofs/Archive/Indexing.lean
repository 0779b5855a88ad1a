import ArchiveVfs.Archive.Basic
import ArchiveVfs.Proofs.Archive.Directories
import Mathlib.Data.List.Dedup

/-!
# What an index says of a container

The index of a container's items is told by the items alone: which files it finds and with
which data (`file?_ofItems`), which directories it has (`contains_ofItems`), what it lists
(`Linked.mem_listFiles`, `Linked.mem_listDirectories`) and how many files there are. Items of
one path, directories recorded late or not at all, and files that lie where others have a
directory make no difference to these answers.
-/

namespace ArchiveVfs.Index

open EntryPath

variable {index : Index} {items : List Zip.Item} {item : Zip.Item} {path name : String}

/-- The item is a file at the path. -/
def FileAt (item : Zip.Item) (path : String) : Prop :=
  item.isDirectory = false ∧ normal item.name = path ∧ path ≠ ""

instance (item : Zip.Item) (path : String) : Decidable (FileAt item path) :=
  inferInstanceAs (Decidable (_ ∧ _))

/-- The item is a directory at the path, or lies somewhere in one. -/
def Brings (item : Zip.Item) (path : String) : Prop :=
  (item.isDirectory = true ∧ normal item.name = path) ∨ Encloses path item.name

/-- The paths of the files among some items. -/
def filePaths (items : List Zip.Item) : List String :=
  ((items.filter fun item => !item.isDirectory).map fun item => normal item.name).filter (· ≠ "")

theorem FileAt.ofItem_eq (h : FileAt item path) : Entry.ofItem item = {
    path, dataStart := item.dataStart, packedSize := item.packedSize, size := item.size,
    method := item.method, checksum := item.checksum, encrypted := item.encrypted } := by
  rw [← h.2.1]
  rfl

/-! ## One item -/

theorem normal_ne_empty (h : normal name ≠ "") : (normal name).toList.isEmpty = false := by
  rw [Bool.eq_false_iff, ne_eq, List.isEmpty_iff, String.toList_eq_nil_iff]
  exact h

theorem addItem_unnamed (h : normal item.name = "") : index.addItem item = index := by
  rw [addItem, h]
  rfl

theorem addItem_directory (h : normal item.name ≠ "") (hdir : item.isDirectory = true) :
    index.addItem item = index.addDirectory (normal item.name) := by
  simp only [addItem, normal_ne_empty h, hdir, Bool.false_eq_true, if_false, if_true]

theorem addItem_file (h : normal item.name ≠ "") (hfile : item.isDirectory = false) :
    index.addItem item = index.addFile (.ofItem item) := by
  simp only [addItem, normal_ne_empty h, hfile, Bool.false_eq_true, if_false]

/-- An item brings itself, if it is a directory, and the directories around it. -/
theorem Linked.addItem (h : Linked index) (item : Zip.Item) :
    Linked (index.addItem item) ∧ ∀ path, (index.addItem item).directories.contains path = true ↔
      index.directories.contains path = true ∨ Brings item path := by
  have hparts := areParts_segments item.name.toList
  by_cases hname : normal item.name = ""
  · rw [addItem_unnamed hname]
    refine ⟨h, fun path => (or_iff_left_of_imp ?_).symm⟩
    rintro (⟨_, rfl⟩ | haround)
    · rw [hname]
      exact h.root
    · exact absurd haround (not_encloses_unnamed hname)
  · cases hdir : item.isDirectory with
    | true =>
      rw [addItem_directory hname hdir, normal_eq]
      refine ⟨h.addDirectory hparts, fun path => ?_⟩
      rw [h.contains_addDirectory hparts, exists_front_iff, Brings, hdir, eq_self, true_and]
    | false =>
      rw [addItem_file hname hdir]
      have hsome : segments item.name.toList ≠ [] := fun hnil =>
        hname ((ofParts_eq_empty hparts).2 hnil)
      obtain ⟨parts, part, hwhole⟩ := (List.eq_nil_or_concat _).resolve_left hsome
      rw [List.concat_eq_append] at hwhole
      have hpath : (Entry.ofItem item).path = ofParts (parts ++ [part]) := by
        rw [← hwhole]
        rfl
      rw [hwhole] at hparts
      refine ⟨h.addFile hparts hpath, fun path => ?_⟩
      rw [h.contains_addFile hparts hpath, Brings, hdir, encloses_iff hwhole]
      simp only [Bool.false_eq_true, false_and, false_or]

theorem file?_addItem {entry : Entry} : (index.addItem item).file? path = some entry ↔
    (FileAt item path ∧ entry = .ofItem item) ∨
      (¬ FileAt item path ∧ index.file? path = some entry) := by
  by_cases hname : normal item.name = ""
  · have hnot : ¬ FileAt item path := by
      rintro ⟨_, hpath, hsome⟩
      exact hsome (hpath.symm.trans hname)
    rw [addItem_unnamed hname]
    simp only [hnot, false_and, not_false_iff, true_and, false_or]
  · cases hdir : item.isDirectory with
    | true =>
      have hnot : ¬ FileAt item path := fun h => Bool.noConfusion (hdir.symm.trans h.1)
      rw [addItem_directory hname hdir]
      simp only [hnot, false_and, not_false_iff, true_and, false_or]
      rfl
    | false =>
      rw [addItem_file hname hdir]
      show (index.files.insert (normal item.name) (.ofItem item)).get? path = some entry ↔ _
      rw [Table.get?_insert]
      by_cases hpath : normal item.name = path
      · have hat : FileAt item path := ⟨hdir, hpath, hpath ▸ hname⟩
        rw [if_pos hpath]
        simp [hat, eq_comm]
      · have hnot : ¬ FileAt item path := fun h => hpath h.2.1
        rw [if_neg hpath]
        simp only [hnot, false_and, not_false_iff, true_and, false_or]
        rfl

/-! ## All items -/

theorem ofItems_concat (items : List Zip.Item) (item : Zip.Item) :
    ofItems (items ++ [item]) = (ofItems items).addItem item := by
  rw [ofItems, ofItems, List.foldl_append, List.foldl_cons, List.foldl_nil]

theorem linked_ofItems (items : List Zip.Item) : Linked (ofItems items) := by
  induction items using List.reverseRecOn with
  | nil => exact linked_empty
  | append_singleton items item ih =>
    rw [ofItems_concat]
    exact (ih.addItem item).1

/-- There are the root and the directories that some item brings. -/
theorem contains_ofItems : (ofItems items).directories.contains path = true ↔
    path = "" ∨ ∃ item ∈ items, Brings item path := by
  induction items using List.reverseRecOn with
  | nil =>
    show (Table.empty.insert "" ({} : Directory)).contains path = true ↔ _
    rw [Table.contains_insert]
    exact or_congr_right ⟨nofun, nofun⟩
  | append_singleton items item ih =>
    rw [ofItems_concat, ((linked_ofItems items).addItem item).2 path, ih]
    simp only [List.mem_append, List.mem_singleton, or_and_right, exists_or, exists_eq_left,
      or_assoc]

/-- A path has the file that the last item at it stands for. -/
theorem file?_ofItems {entry : Entry} : (ofItems items).file? path = some entry ↔
    ∃ earlier item later, items = earlier ++ item :: later ∧ FileAt item path ∧
      (∀ other ∈ later, ¬ FileAt other path) ∧ entry = .ofItem item := by
  -- from the end: the last item counts, or the one that counted before it still does
  induction items using List.reverseRecOn with
  | nil =>
    constructor
    · exact nofun
    · rintro ⟨earlier, item, later, hitems, _⟩
      cases earlier <;> cases hitems
  | append_singleton items last ih =>
    rw [ofItems_concat, file?_addItem, ih]
    constructor
    · rintro (⟨hat, hentry⟩ | ⟨hnot, earlier, item, later, rfl, hat, hlater, hentry⟩)
      · exact ⟨items, last, [], rfl, hat, nofun, hentry⟩
      · refine ⟨earlier, item, later ++ [last], by simp, hat, ?_, hentry⟩
        intro other hin
        rcases List.mem_append.1 hin with hin | hin
        · exact hlater other hin
        · exact List.mem_singleton.1 hin ▸ hnot
    · rintro ⟨earlier, item, later, hitems, hat, hlater, hentry⟩
      rcases List.eq_nil_or_concat later with rfl | ⟨middle, other, rfl⟩
      · obtain ⟨rfl, heq⟩ := List.append_inj' hitems rfl
        obtain rfl := List.singleton_inj.1 heq
        exact .inl ⟨hat, hentry⟩
      · rw [List.concat_eq_append] at hitems hlater
        rw [← List.cons_append, ← List.append_assoc] at hitems
        obtain ⟨rfl, heq⟩ := List.append_inj' hitems rfl
        obtain rfl := List.singleton_inj.1 heq
        refine .inr ⟨hlater last (by simp), earlier, item, middle, rfl, hat, ?_, hentry⟩
        exact fun other hin => hlater other (List.mem_append_left _ hin)

theorem isSome_file?_ofItems : ((ofItems items).file? path).isSome = true ↔
    ∃ item ∈ items, FileAt item path := by
  induction items using List.reverseRecOn with
  | nil => exact ⟨nofun, nofun⟩
  | append_singleton items item ih =>
    rw [Option.isSome_iff_exists] at ih ⊢
    rw [ofItems_concat]
    simp only [file?_addItem]
    by_cases hat : FileAt item path
    · exact iff_of_true ⟨_, .inl ⟨hat, rfl⟩⟩ ⟨item, by simp, hat⟩
    · simp [hat, ih, or_and_right, exists_or]

/-! ## Listings -/

theorem namesIn_sorted (index : Index) (kind : Directory → Table Unit) (path pattern : String) :
    (index.namesIn kind path pattern).Pairwise (· < ·) := by
  rw [namesIn]
  split
  · exact (Table.keys_sorted _).filter _
  · exact .nil

/-- A directory lists what its names are those of; where there is no directory nothing is listed
and there is nothing. -/
theorem mem_namesIn {kind : Directory → Table Unit} {pattern : String} (there : String → Prop)
    (hnames : ∀ {directory}, index.directories.get? path = some directory → ∀ name,
      (kind directory).contains name = true ↔ IsPart name ∧ there (within path name))
    (haround : ∀ {name}, IsPart name → there (within path name) →
      index.directories.contains path = true) :
    name ∈ index.namesIn kind path pattern ↔
      IsPart name ∧ Wildcard.accepts pattern name = true ∧ there (within path name) := by
  rw [namesIn]
  cases hdir : index.directories.get? path with
  | none =>
    refine ⟨nofun, ?_⟩
    rintro ⟨hpart, _, hthere⟩
    have hcontains := haround hpart hthere
    rw [Table.contains, hdir] at hcontains
    cases hcontains
  | some directory =>
    show name ∈ (kind directory).keys.filter _ ↔ _
    rw [List.mem_filter, Table.mem_keys, hnames hdir, and_assoc, and_comm (a := there _)]

theorem Linked.mem_listFiles (h : Linked index) {pattern : String} :
    name ∈ index.listFiles path pattern ↔ IsPart name ∧ Wildcard.accepts pattern name = true ∧
      index.files.contains (within path name) = true :=
  mem_namesIn (fun path => index.files.contains path = true) h.fileNames h.aroundFile

theorem Linked.mem_listDirectories (h : Linked index) {pattern : String} :
    name ∈ index.listDirectories path pattern ↔ IsPart name ∧ Wildcard.accepts pattern name = true ∧
      index.directories.contains (within path name) = true :=
  mem_namesIn (fun path => index.directories.contains path = true) h.directoryNames
    h.aroundDirectory

/-! ## The number of files -/

theorem mem_filePaths : path ∈ filePaths items ↔ ∃ item ∈ items, FileAt item path := by
  simp only [filePaths, List.mem_filter, List.mem_map, Bool.not_eq_true', decide_eq_true_eq]
  constructor
  · rintro ⟨⟨item, ⟨hin, hfile⟩, hpath⟩, hsome⟩
    exact ⟨item, hin, hfile, hpath, hsome⟩
  · rintro ⟨item, hin, hfile, hpath, hsome⟩
    exact ⟨⟨item, ⟨hin, hfile⟩, hpath⟩, hsome⟩

theorem length_files_ofItems (items : List Zip.Item) :
    (ofItems items).files.entries.length = (filePaths items).dedup.length := by
  have hnodup : (ofItems items).files.keys.Nodup :=
    (Table.keys_sorted _).imp fun hlt => String.ne_of_lt hlt
  have hperm : (ofItems items).files.keys.Perm (filePaths items).dedup := by
    refine (List.perm_ext_iff_of_nodup hnodup (List.nodup_dedup _)).2 fun path => ?_
    rw [Table.mem_keys, List.mem_dedup, mem_filePaths]
    exact isSome_file?_ofItems
  rw [← hperm.length_eq]
  exact (List.length_map _).symm

/-! ## The whole index -/

/-- The index of an archive denotes the items of its container: a path has the file of the
last item at it; directories are the root, the directories recorded and all directories around a
recorded name; each directory lists, in strict order, what can be found in it, and what is no
directory lists nothing; files are counted by their paths. -/
theorem index_of_items {archive : Archive} (hindex : archive.index = .ofItems items) :
    (∀ path entry, archive.file? path = some entry ↔
      ∃ earlier item later, items = earlier ++ item :: later ∧ FileAt item path ∧
        (∀ other ∈ later, ¬ FileAt other path) ∧
        entry = {
          path, dataStart := item.dataStart, packedSize := item.packedSize, size := item.size,
          method := item.method, checksum := item.checksum, encrypted := item.encrypted }) ∧
    (∀ path, (archive.file? path).isSome = true ↔ ∃ item ∈ items, FileAt item path) ∧
    (∀ path, archive.hasDirectory path = true ↔ path = "" ∨
      (∃ item ∈ items, item.isDirectory = true ∧ normal item.name = path) ∨
      ∃ item ∈ items, Encloses path item.name) ∧
    (∀ path pattern, (archive.index.listFiles path pattern).Pairwise (· < ·) ∧
      ∀ name, name ∈ archive.index.listFiles path pattern ↔ IsPart name ∧
        Wildcard.accepts pattern name = true ∧ (archive.file? (within path name)).isSome = true) ∧
    (∀ path pattern, (archive.index.listDirectories path pattern).Pairwise (· < ·) ∧
      ∀ name, name ∈ archive.index.listDirectories path pattern ↔ IsPart name ∧
        Wildcard.accepts pattern name = true ∧ archive.hasDirectory (within path name) = true) ∧
    (∀ path pattern, archive.hasDirectory path = false →
      archive.index.listFiles path pattern = [] ∧ archive.index.listDirectories path pattern = []) ∧
    archive.fileCount = (filePaths items).dedup.length := by
  have hlinked : Linked archive.index := hindex ▸ linked_ofItems items
  refine ⟨fun path entry => ?_, fun path => ?_, fun path => ?_, fun path pattern => ⟨?_, ?_⟩,
    fun path pattern => ⟨?_, ?_⟩, fun path pattern hnone => ?_, ?_⟩
  · rw [Archive.file?, hindex, file?_ofItems]
    refine exists_congr fun earlier => exists_congr fun item => exists_congr fun later => ?_
    refine and_congr_right fun _ => and_congr_right fun hat => and_congr_right fun _ => ?_
    rw [hat.ofItem_eq]
  · rw [Archive.file?, hindex, isSome_file?_ofItems]
  · rw [Archive.hasDirectory, hindex, hasDirectory, contains_ofItems]
    simp only [Brings, and_or_left, exists_or]
  · exact namesIn_sorted ..
  · exact fun name => hlinked.mem_listFiles
  · exact namesIn_sorted ..
  · exact fun name => hlinked.mem_listDirectories
  · have hdir : archive.index.directories.get? path = none := by
      simpa [Archive.hasDirectory, hasDirectory, Table.contains] using hnone
    exact ⟨by rw [listFiles, namesIn, hdir], by rw [listDirectories, namesIn, hdir]⟩
  · rw [Archive.fileCount, hindex, length_files_ofItems]

/-- A record of a name, with no more than a size. -/
def sizedItem (name : String) (size : Nat) : Zip.Item where
  name := name
  writtenName := []
  remark := ""
  method := .stored
  encrypted := false
  streamed := false
  time := 0
  date := 0
  checksum := 0
  packedSize := size
  size := size
  start := 0
  dataStart := 30

/-- One file recorded twice, a directory in a directory that has the path of the file, and a name
without segments. -/
def mixedItems : List Zip.Item :=
  [sizedItem "a\\b.txt" 1, sizedItem "./a//b.txt" 2, sizedItem "a/b.txt/c\\" 0, sizedItem "/." 0]

/-- An archive of these. -/
def mixedArchive : Archive where
  uri := { scheme := "file", localPath := "/mixed.zip" }
  mountPoint := ""
  data := .loaded []
  index := .ofItems mixedItems

/-- The file has the data of its second record, and its path is that of a directory, too. -/
theorem index_of_items_mixed :
    mixedArchive.index = .ofItems mixedItems ∧
    mixedArchive.file? "a/b.txt" = some {
      path := "a/b.txt", dataStart := 30, packedSize := 2, size := 2, method := .stored,
      checksum := 0, encrypted := false } ∧
    mixedArchive.hasDirectory "a/b.txt" = true ∧
    "c" ∈ mixedArchive.index.listDirectories "a/b.txt" "?" ∧
    mixedArchive.hasDirectory "a/b" = false ∧ mixedArchive.index.listFiles "a/b" "*" = [] ∧
    mixedArchive.fileCount = 1 := by
  have hindex : mixedArchive.index = .ofItems mixedItems := rfl
  obtain ⟨hfile, _, hdir, _, hdirs, hnone, hcount⟩ := index_of_items hindex
  have hbare : mixedArchive.hasDirectory "a/b" = false := by decide +kernel
  refine ⟨hindex, ?_, ?_, ?_, hbare, (hnone "a/b" "*" hbare).1, hcount.trans ?_⟩
  · exact (hfile _ _).2 ⟨[sizedItem "a\\b.txt" 1], sizedItem "./a//b.txt" 2, _, rfl,
      by decide +kernel, by decide +kernel, by decide +kernel⟩
  · exact (hdir "a/b.txt").2 (.inr (.inr ⟨sizedItem "a/b.txt/c\\" 0, by decide +kernel,
      ["a".toList, "b.txt".toList], ["c".toList], by decide +kernel, by decide, by decide +kernel⟩))
  · exact ((hdirs "a/b.txt" "?").2 "c").2 ⟨⟨by decide, by decide⟩, by decide +kernel,
      by decide +kernel⟩
  · decide +kernel

end ArchiveVfs.Index
