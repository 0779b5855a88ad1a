import ArchiveVfs.Proofs.Disk.Contents
import ArchiveVfs.Proofs.Outcome

/-!
# Paths to files

Writing to a file moves no path: disks that are alike up to the bytes of files
(`SameTree`) are walked alike. A path that leads to a file leads there also when
something may be created (`findToCreate_of_locate`): it ends in no slash, nor does a link
that it ends with, since what ends so is a directory. A file that such a path leads to and
that may be written (`HasFile`) opens in every mode and takes all writes.
-/

namespace ArchiveVfs.Disk

variable {disk later : Disk} {path : String} {node : NodeId} {data : Bytes}

/-- The disks have the same directories, links and devices, and files in the same places. -/
structure SameTree (disk later : Disk) : Prop where
  here : later.here = disk.here
  content : ∀ id, later.content? id = disk.content? id ∨
    disk.isFile id = true ∧ later.isFile id = true

namespace SameTree

theorem directory (h : SameTree disk later) {id parent : NodeId} {entries : Table NodeId} :
    later.content? id = some (.directory entries parent) ↔
      disk.content? id = some (.directory entries parent) := by
  rcases h.content id with hsame | ⟨hbefore, hafter⟩
  · rw [hsame]
  · obtain ⟨old, hold⟩ := isFile_iff.1 hbefore
    obtain ⟨new, hnew⟩ := isFile_iff.1 hafter
    simp [hold, hnew]

theorem link (h : SameTree disk later) {id : NodeId} {target : String} :
    later.content? id = some (.link target) ↔ disk.content? id = some (.link target) := by
  rcases h.content id with hsame | ⟨hbefore, hafter⟩
  · rw [hsame]
  · obtain ⟨old, hold⟩ := isFile_iff.1 hbefore
    obtain ⟨new, hnew⟩ := isFile_iff.1 hafter
    simp [hold, hnew]

theorem isDirectory (h : SameTree disk later) (id : NodeId) :
    later.isDirectory id = disk.isDirectory id := by
  rcases h.content id with hsame | ⟨hbefore, hafter⟩
  · rw [Disk.isDirectory, Disk.isDirectory, entries?, entries?, hsame]
  · obtain ⟨old, hold⟩ := isFile_iff.1 hbefore
    obtain ⟨new, hnew⟩ := isFile_iff.1 hafter
    simp [Disk.isDirectory, entries?, hold, hnew]

theorem startOf (h : SameTree disk later) (route : Route) (directory : NodeId) :
    later.startOf route directory = disk.startOf route directory := by
  rw [Disk.startOf, Disk.startOf, h.isDirectory]

theorem slashFault (h : SameTree disk later) (found : Except SystemFault Place) :
    later.slashFault found = disk.slashFault found := by
  rcases found with fault | id | ⟨directory, name⟩
  · rfl
  · simp only [Disk.slashFault, h.isDirectory]
  · rfl

theorem walk (h : SameTree disk later) (last : LastLink) (links : Nat) (id : NodeId)
    (names : List String) : later.walk last links id names = disk.walk last links id names := by
  fun_induction Disk.walk disk last links id names <;> rw [Disk.walk]
  all_goals grind [h.directory, h.link, h.startOf, h.slashFault]

theorem locate (h : SameTree disk later) (path : String) :
    later.locate path = disk.locate path := by
  simp only [Disk.locate, Disk.find, h.walk, h.startOf, h.here]

end SameTree

/-- What ends in `.` is a directory. -/
theorem isDirectory_of_walk_dot {last : LastLink} {links : Nat} {id : NodeId} {names : List String}
    (hdot : names.getLast? = some ".") (hwalk : disk.walk last links id names = .ok (.node node)) :
    disk.isDirectory node = true := by
  -- along the walk the names left keep their last one, also behind the steps of a link
  fun_induction Disk.walk disk last links id names
  case case2 last links id rest entries parent hdir ih =>
    cases rest with
    | nil =>
      obtain rfl : id = node := by simpa [Disk.walk] using hwalk
      simp [isDirectory, entries?, hdir]
    | cons next rest => exact ih (by simpa using hdot) hwalk
  all_goals grind

theorem getLast?_steps {route : Route} (h : route.slashed = true) :
    route.steps.getLast? = some "." := by
  simp [Route.steps, h]

/-- A walk that ends at no directory leads there also when something may be created. -/
theorem walk_create {links : Nat} {id : NodeId} {names : List String}
    (hwalk : disk.walk .follow links id names = .ok (.node node))
    (hplain : disk.isDirectory node = false) :
    disk.walk .create links id names = .ok (.node node) := by
  generalize hlast : LastLink.follow = last at hwalk
  fun_induction Disk.walk disk last links id names <;> subst hlast <;> rw [Disk.walk]
  case case10 id name rest _ _ _ _ _ _ next _ target _ links route start _ _ ih =>
    -- a link that is the last name and ends in a slash would have led to a directory
    have hopen : ¬(rest = [] ∧ route.slashed = true) := by
      rintro ⟨rfl, hslashed⟩
      rw [List.append_nil] at hwalk
      have hdir := isDirectory_of_walk_dot (getLast?_steps hslashed) hwalk
      rw [hplain] at hdir
      cases hdir
    grind
  all_goals grind

theorem isDirectory_of_file (h : disk.content? node = some (.file data)) :
    disk.isDirectory node = false := by
  simp [isDirectory, entries?, h]

/-- A path to a node that is no directory leads there also when something may be created. -/
theorem findToCreate_of_locate (hlocate : disk.locate path = .ok node)
    (hplain : disk.isDirectory node = false) : disk.findToCreate path = .ok (.node node) := by
  obtain ⟨place, hfind, hplace⟩ := Outcome.bind_eq_ok.1 hlocate
  cases place with
  | vacancy directory name => cases hplace
  | node id =>
    obtain rfl : id = node := Except.ok.inj hplace
    obtain ⟨route, hroute, hwalk⟩ := Outcome.bind_eq_ok.1 hfind
    by_cases hslashed : route.slashed = true
    · have hdir := isDirectory_of_walk_dot (getLast?_steps hslashed) hwalk
      rw [hplain] at hdir
      cases hdir
    · have hsteps : route.steps = route.names := by rw [Route.steps, if_neg hslashed]
      rw [hsteps] at hwalk
      rw [findToCreate, hroute, Outcome.ok_bind]
      simp only [if_neg hslashed]
      exact walk_create hwalk hplain

/-! ## Writing to a file -/

theorem setBytes_other {id : NodeId} (hother : id ≠ node) (new : Bytes) :
    (disk.setBytes node new).content? id = disk.content? id := by
  have hother : node ≠ id := fun heq => hother heq.symm
  simp [content?, setBytes, update, Array.getElem?_modify, hother]

theorem isMarked_setBytes (id : NodeId) (new : Bytes) :
    (disk.setBytes node new).isMarked id = disk.isMarked id := by
  by_cases hsame : node = id
  · subst hsame
    simp [isMarked, setBytes, update, Array.getElem?_modify, Function.comp_def]
  · simp [isMarked, setBytes, update, Array.getElem?_modify, hsame]

theorem sameTree_setBytes (h : disk.content? node = some (.file data)) (new : Bytes) :
    SameTree disk (disk.setBytes node new) where
  here := rfl
  content id := by
    by_cases hsame : id = node
    · subst hsame
      exact .inr ⟨isFile_iff.2 ⟨data, h⟩, isFile_iff.2 ⟨new, setBytes_node h new⟩⟩
    · exact .inl (setBytes_other hsame new)

/-- The path leads to a file that holds the bytes and may be written. -/
structure HasFile (disk : Disk) (path : String) (node : NodeId) (data : Bytes) : Prop where
  located : disk.locate path = .ok node
  content : disk.content? node = some (.file data)
  unmarked : disk.isMarked node = false

namespace HasFile

theorem setBytes (h : disk.HasFile path node data) (new : Bytes) :
    (disk.setBytes node new).HasFile path node new where
  located := by rw [(sameTree_setBytes h.content new).locate, h.located]
  content := setBytes_node h.content new
  unmarked := by rw [isMarked_setBytes, h.unmarked]

theorem readWhole (h : disk.HasFile path node data) : disk.readWhole path = .ok data := by
  rw [Disk.readWhole, h.located, Outcome.ok_bind, size_of_file h.content,
    readAt_of_file h.content, List.drop_zero, List.take_length]

theorem openOrCreate (h : disk.HasFile path node data) :
    disk.openOrCreate path = .ok (node, disk) := by
  have hplain := isDirectory_of_file h.content
  rw [Disk.openOrCreate, findToCreate_of_locate h.located hplain, Outcome.ok_bind]
  simp only [demandWrite, demandChange, hplain, h.unmarked]
  rfl

/-- The file opens in every mode; only mode write changes it, and empties it. -/
theorem openNode (h : disk.HasFile path node data) (mode : AccessMode) :
    ∃ later, disk.openNode mode path = .ok (node, later) ∧
      later.HasFile path node (if mode = .write then [] else data) := by
  cases mode with
  | read =>
    rw [Disk.openNode, h.located]
    exact ⟨disk, rfl, h⟩
  | write =>
    have hfile : disk.isFile node = true := isFile_iff.2 ⟨data, h.content⟩
    rw [Disk.openNode, h.openOrCreate]
    refine ⟨disk.setBytes node [], ?_, h.setBytes []⟩
    simp only [Except.map, truncate, if_pos hfile]
  | append | readWrite =>
    rw [Disk.openNode, h.openOrCreate]
    exact ⟨disk, rfl, h⟩

/-- Writing succeeds and overwrites the bytes of the file. -/
theorem writeAt (h : disk.HasFile path node data) {offset : Nat} (hwithin : offset ≤ data.length)
    (new : Bytes) : ∃ later, disk.writeAt node offset new = .ok later ∧
      later.HasFile path node (data.overwrite offset new) := by
  rcases writeAt_of_file h.content hwithin new with ⟨hsame, hnone⟩ | hwritten
  · rw [hnone]
    exact ⟨disk, hsame, h⟩
  · exact ⟨_, hwritten, h.setBytes _⟩

end HasFile

end ArchiveVfs.Disk
