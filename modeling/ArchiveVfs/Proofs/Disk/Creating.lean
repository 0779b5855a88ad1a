import ArchiveVfs.Disk.Tree
import ArchiveVfs.Proofs.Disk.Growth

/-!
# Marks, and opening to write

Clearing a read-only mark leaves a disk that is read as before (`Alike`). Opening a path to
write empties the file that it leads to, or creates one in the place where the name is
vacant (`openNode_write`): in both cases the path leads to this file afterwards, and no
other file is touched.
-/

namespace ArchiveVfs.Disk

variable {disk other later : Disk} {path : String} {node id : NodeId} {data : Bytes}

/-! ## Disks that are read alike -/

/-- The disks hold the same; marks and times may differ. -/
structure Alike (disk other : Disk) : Prop where
  here : other.here = disk.here
  content : ∀ id, other.content? id = disk.content? id

namespace Alike

theorem refl (disk : Disk) : Alike disk disk := ⟨rfl, fun _ => rfl⟩

theorem locate (h : Alike disk other) (path : String) : other.locate path = disk.locate path :=
  SameTree.locate ⟨h.here, fun id => .inl (h.content id)⟩ path

theorem isFile (h : Alike disk other) (id : NodeId) : other.isFile id = disk.isFile id := by
  rw [Disk.isFile, Disk.isFile, h.content]

theorem isDirectory (h : Alike disk other) (id : NodeId) :
    other.isDirectory id = disk.isDirectory id := by
  rw [Disk.isDirectory, Disk.isDirectory, entries?, entries?, h.content]

theorem size (h : Alike disk other) (id : NodeId) : other.size id = disk.size id := by
  rw [Disk.size, Disk.size, h.content]

theorem bytes (h : Alike disk other) (id : NodeId) : other.bytes id = disk.bytes id := by
  rw [Disk.bytes, Disk.bytes, h.content]

theorem readAt (h : Alike disk other) (id : NodeId) (offset count : Nat) :
    other.readAt id offset count = disk.readAt id offset count := by
  rw [Disk.readAt, Disk.readAt, h.content]

theorem fileExists (h : Alike disk other) (path : String) :
    other.fileExists path = disk.fileExists path := by
  rw [Disk.fileExists, Disk.fileExists, h.locate]
  cases disk.locate path with
  | error fault => rfl
  | ok id => exact h.isFile id

theorem directoryExists (h : Alike disk other) (path : String) :
    other.directoryExists path = disk.directoryExists path := by
  rw [Disk.directoryExists, Disk.directoryExists, h.locate]
  cases disk.locate path with
  | error fault => rfl
  | ok id => exact h.isDirectory id

end Alike

/-! ## Clearing a mark -/

/-- The disk with the read-only mark of a node cleared. -/
def unmark (disk : Disk) (node : NodeId) : Disk :=
  disk.update node fun found => { found with readOnly := false }

theorem alike_unmark (disk : Disk) (node : NodeId) : Alike disk (disk.unmark node) where
  here := rfl
  content id := by
    by_cases hsame : node = id
    · subst hsame
      simp [content?, unmark, update, Array.getElem?_modify, Function.comp_def]
    · simp [content?, unmark, update, Array.getElem?_modify, hsame]

theorem isMarked_unmark (disk : Disk) (node : NodeId) :
    (disk.unmark node).isMarked node = false := by
  cases hnode : disk.nodes[node]? <;>
    simp [isMarked, unmark, update, Array.getElem?_modify, hnode]

theorem setReadOnly_of_locate (h : disk.locate path = .ok node) :
    disk.setReadOnly path false = .ok (disk.unmark node) := by
  rw [setReadOnly, h]
  rfl

/-! ## Creating a file -/

/-- A walk that finds a place where something may be created finds it by following too. -/
theorem walk_follow {links : Nat} {names : List String} {place : Place}
    (hwalk : disk.walk .create links id names = .ok place) :
    disk.walk .follow links id names = .ok place := by
  generalize hlast : LastLink.create = last at hwalk
  fun_induction Disk.walk disk last links id names <;> subst hlast <;> rw [Disk.walk]
  all_goals grind

/-- A place where something may be created lies at the end of a path without a slash. -/
theorem findToCreate_eq_ok {place : Place} (h : disk.findToCreate path = .ok place) :
    ∃ route, Route.ofPath path = .ok route ∧ route.steps = route.names ∧
      disk.walk .create maxLinks (disk.startOf route disk.here) route.names = .ok place := by
  obtain ⟨route, hroute, hwalk⟩ := Outcome.bind_eq_ok.1 h
  by_cases hslashed : route.slashed = true
  · simp only [if_pos hslashed] at hwalk
    cases hwalk
  · simp only [if_neg hslashed] at hwalk
    exact ⟨route, hroute, by rw [Route.steps, if_neg hslashed], hwalk⟩

/-- The later disk has one file more, under a name that its directory did not have. -/
structure Gains (disk later : Disk) (directory : NodeId) (name : String) (node : NodeId)
    (data : Bytes) : Prop where
  here : later.here = disk.here
  fresh : disk.content? node = none
  created : later.content? node = some (.file data)
  unmarked : later.isMarked node = false
  named : ∃ entries parent, disk.content? directory = some (.directory entries parent) ∧
    entries.get? name = none ∧
    later.content? directory = some (.directory (entries.insert name node) parent)
  others : ∀ id, id ≠ directory → id ≠ node → later.content? id = disk.content? id

namespace Gains

variable {place : NodeId} {name : String}

theorem isDirectory (h : Gains disk later place name node data) (id : NodeId) :
    later.isDirectory id = disk.isDirectory id := by
  obtain ⟨names, owner, hold, _, hnew⟩ := h.named
  rw [Disk.isDirectory, Disk.isDirectory, entries?, entries?]
  by_cases hsame : id = place
  · subst hsame
    simp [hold, hnew]
  · by_cases hfresh : id = node
    · subst hfresh
      simp [h.fresh, h.created]
    · rw [h.others id hsame hfresh]

/-- The tree has grown by the file. -/
theorem grown (h : Gains disk later place name node data) : Extends disk later where
  here := h.here
  start := h.isDirectory disk.here
  directory id entries parent hdir := by
    obtain ⟨names, owner, hold, hnone, hnew⟩ := h.named
    by_cases hsame : id = place
    · subst hsame
      rw [hold] at hdir
      obtain ⟨rfl, rfl⟩ := Content.directory.inj (Option.some.inj hdir)
      refine ⟨_, hnew, fun other next hnext => ?_⟩
      rw [Table.get?_insert, if_neg, hnext]
      rintro rfl
      rw [hnone] at hnext
      cases hnext
    · have hfresh : id ≠ node := by
        rintro rfl
        rw [h.fresh] at hdir
        cases hdir
      rw [h.others id hsame hfresh]
      exact ⟨entries, hdir, fun _ _ hnext => hnext⟩
  link id target := by
    obtain ⟨names, owner, hold, _, hnew⟩ := h.named
    by_cases hsame : id = place
    · subst hsame
      simp [hold, hnew]
    · by_cases hfresh : id = node
      · subst hfresh
        simp [h.fresh, h.created]
      · rw [h.others id hsame hfresh]
  gained id entries parent more other next hdir hmore hnone hnext := by
    obtain ⟨names, owner, hold, _, hnew⟩ := h.named
    by_cases hsame : id = place
    · subst hsame
      rw [hold] at hdir
      obtain ⟨rfl, rfl⟩ := Content.directory.inj (Option.some.inj hdir)
      rw [hnew] at hmore
      obtain ⟨rfl, _⟩ := Content.directory.inj (Option.some.inj hmore)
      rw [Table.get?_insert, hnone] at hnext
      split at hnext
      · obtain rfl := Option.some.inj hnext
        simp [h.created]
      · cases hnext
    · have hfresh : id ≠ node := by
        rintro rfl
        rw [h.fresh] at hdir
        cases hdir
      rw [h.others id hsame hfresh, hdir] at hmore
      obtain ⟨rfl, _⟩ := Content.directory.inj (Option.some.inj hmore)
      rw [hnone] at hnext
      cases hnext

/-- The name that was vacant is settled by the file. -/
theorem settle (h : Gains disk later place name node data) :
    later.settle (.vacancy place name) = .node node := by
  obtain ⟨names, owner, _, _, hnew⟩ := h.named
  simp [Disk.settle, child?, entries?, hnew, Table.get?_insert]

/-- The path along which the file was created leads to it. -/
theorem hasFile (h : Gains disk later place name node data)
    (hvacant : disk.findToCreate path = .ok (.vacancy place name)) :
    later.HasFile path node data := by
  refine ⟨?_, h.created, h.unmarked⟩
  obtain ⟨route, hroute, hsteps, hwalk⟩ := findToCreate_eq_ok hvacant
  have hlater := h.grown.walk (walk_follow hwalk)
  rw [h.settle] at hlater
  rw [Disk.locate, find, hroute, Outcome.ok_bind, h.grown.startOf_here, hsteps, hlater]
  rfl

theorem setBytes (h : Gains disk later place name node data) (new : Bytes) :
    Gains disk (later.setBytes node new) place name node new where
  here := h.here
  fresh := h.fresh
  created := setBytes_node h.created new
  unmarked := by rw [isMarked_setBytes, h.unmarked]
  named := by
    obtain ⟨names, owner, hold, hnone, hnew⟩ := h.named
    refine ⟨names, owner, hold, hnone, ?_⟩
    rw [setBytes_other _ new, hnew]
    rintro rfl
    rw [h.fresh] at hold
    cases hold
  others id hplace hnode := by rw [setBytes_other hnode, h.others id hplace hnode]

end Gains

theorem gains_addNamed {directory parent : NodeId} {entries : Table NodeId} {name : String}
    (hdir : disk.content? directory = some (.directory entries parent))
    (hnone : entries.get? name = none) (data : Bytes) :
    Gains disk (disk.addNamed directory name (.file data)).2 directory name disk.nodes.size
      data := by
  obtain ⟨found, hfound, hcontent⟩ := Option.map_eq_some_iff.1 hdir
  have hinside : directory < disk.nodes.size := by
    obtain ⟨hinside, -⟩ := Array.getElem?_eq_some_iff.1 hfound
    exact hinside
  have hnode := nodes_addNamed hfound name (.file data)
  refine ⟨rfl, ?_, ?_, ?_, ⟨entries, parent, hdir, hnone, ?_⟩, ?_⟩
  · simp [content?]
  · simp [content?, hnode, Nat.ne_of_lt hinside]
  · simp [isMarked, hnode, Nat.ne_of_lt hinside]
  · simp [content?, hnode, Node.withEntries, hcontent]
  · intro id hplace hnew
    rw [content?, hnode, if_neg (Ne.symm hplace), if_neg hnew, content?]

/-! ## Opening to write -/

/-- Of two contents only the later one stays. -/
theorem setBytes_setBytes (disk : Disk) (node : NodeId) (first second : Bytes) :
    (disk.setBytes node first).setBytes node second = disk.setBytes node second := by
  have hnodes : (disk.nodes.modify node fun found =>
        { found with content := .file first, writeTime := disk.clock }).modify node (fun found =>
        { found with content := .file second, writeTime := disk.clock })
      = disk.nodes.modify node fun found =>
        { found with content := .file second, writeTime := disk.clock } := by
    apply Array.ext_getElem?
    intro id
    by_cases hsame : node = id
    · cases hnode : disk.nodes[id]? <;> simp [Array.getElem?_modify, hsame, hnode]
    · simp [Array.getElem?_modify, hsame]
  exact congrArg (fun nodes => { disk with nodes }) hnodes

/-- All that opening a path to write can do. -/
inductive Emptied (disk : Disk) (path : String) : NodeId → Disk → Prop where
  /-- The path leads to a file, which loses its bytes. -/
  | file {node : NodeId} {data : Bytes} (hfile : disk.HasFile path node data) :
      Emptied disk path node (disk.setBytes node [])
  /-- The path leads to a device; nothing happens. -/
  | device {node : NodeId} (hlocate : disk.locate path = .ok node)
      (hfile : disk.isFile node = false) (hsize : disk.size node = 0) :
      Emptied disk path node disk
  /-- The path leads nowhere, and a file without bytes is created. -/
  | created {place : NodeId} {name : String} {later : Disk}
      (hvacant : disk.findToCreate path = .ok (.vacancy place name))
      (hgains : Gains disk later place name disk.nodes.size [])
      (hempty : later.setBytes disk.nodes.size [] = later) :
      Emptied disk path disk.nodes.size later

theorem locate_of_findToCreate (h : disk.findToCreate path = .ok (.node node)) :
    disk.locate path = .ok node := by
  obtain ⟨route, hroute, hsteps, hwalk⟩ := findToCreate_eq_ok h
  rw [locate, find, hroute, Outcome.ok_bind, hsteps, walk_follow hwalk]
  rfl

theorem gains_of_vacancy {place : NodeId} {name : String}
    (h : disk.findToCreate path = .ok (.vacancy place name)) :
    Gains disk (disk.addNamed place name (.file [])).2 place name disk.nodes.size [] := by
  obtain ⟨_, _, _, hwalk⟩ := findToCreate_eq_ok h
  obtain ⟨entries, parent, hdir, hnone⟩ := walk_vacancy hwalk
  exact gains_addNamed hdir hnone []

theorem size_of_device (hfile : disk.isFile node = false) (hdir : disk.isDirectory node = false) :
    disk.size node = 0 := by
  rw [isFile] at hfile
  rw [Disk.isDirectory, entries?] at hdir
  rw [size]
  cases hcontent : disk.content? node with
  | none => rfl
  | some content =>
    rw [hcontent] at hfile hdir
    cases content with
    | file data => cases hfile
    | directory entries parent => cases hdir
    | link target => rfl
    | device kind => rfl

theorem truncate_of_file (h : disk.content? node = some (.file data)) :
    disk.truncate node = disk.setBytes node [] := by
  rw [truncate, if_pos (isFile_iff.2 ⟨data, h⟩)]

theorem HasFile.openNode_write (h : disk.HasFile path node data) :
    disk.openNode .write path = .ok (node, disk.setBytes node []) := by
  rw [Disk.openNode, h.openOrCreate]
  show Except.ok (node, disk.truncate node) = _
  rw [truncate_of_file h.content]

/-- Where the system lets a file be created, opening to write creates it. -/
theorem openNode_write_of_vacancy {place : NodeId} {name : String}
    (hvacant : disk.findToCreate path = .ok (.vacancy place name))
    (hfree : disk.isMarked place = false) :
    ∃ later, disk.openNode .write path = .ok (disk.nodes.size, later) ∧
      later.HasFile path disk.nodes.size [] := by
  have hgains := gains_of_vacancy hvacant
  have hcreate : disk.openOrCreate path = .ok (disk.addNamed place name (.file [])) := by
    rw [openOrCreate, hvacant, Outcome.ok_bind]
    simp only [demandChange, hfree]
    rfl
  refine ⟨_, ?_, (hgains.setBytes []).hasFile hvacant⟩
  rw [openNode, hcreate, ← truncate_of_file hgains.created]
  rfl

/-- A file can be left at the path: there is one, which may be marked read-only, or the system
lets one be created. -/
inductive CanHold (disk : Disk) (path : String) : Prop where
  | file {node : NodeId} {data : Bytes} (hlocate : disk.locate path = .ok node)
      (hcontent : disk.content? node = some (.file data)) : CanHold disk path
  | vacant {place : NodeId} {name : String}
      (hvacant : disk.findToCreate path = .ok (.vacancy place name))
      (hfree : disk.isMarked place = false) : CanHold disk path

/-- Opening a path to write is one of these. -/
theorem openNode_write_cases (h : disk.openNode .write path = .ok (node, later)) :
    disk.Emptied path node later := by
  obtain ⟨⟨opened, between⟩, hopen, heq⟩ := Outcome.map_eq_ok.1 h
  obtain ⟨rfl, rfl⟩ := Prod.mk.inj heq
  obtain ⟨place, hplace, hcreate⟩ := Outcome.bind_eq_ok.1 hopen
  -- what is there must be free to be written; what is not must be free to be created
  cases place with
  | node id =>
    obtain ⟨_, hdemand, hsame⟩ := Outcome.bind_eq_ok.1 hcreate
    obtain ⟨rfl, rfl⟩ := Prod.mk.inj (Except.ok.inj hsame)
    have hlocate := locate_of_findToCreate hplace
    cases hfile : disk.isFile id with
    | true =>
      obtain ⟨data, hdata⟩ := isFile_iff.1 hfile
      rw [truncate_of_file hdata]
      refine .file ⟨hlocate, hdata, ?_⟩
      rw [demandWrite, isDirectory_of_file hdata, demandChange] at hdemand
      cases hmarked : disk.isMarked id with
      | false => rfl
      | true =>
        simp only [hmarked] at hdemand
        cases hdemand
    | false =>
      rw [truncate, hfile]
      refine .device hlocate hfile ?_
      cases hdir : disk.isDirectory id with
      | false => exact size_of_device hfile hdir
      | true =>
        rw [demandWrite, hdir] at hdemand
        cases hdemand
  | vacancy directory name =>
    obtain ⟨_, hdemand, hsame⟩ := Outcome.bind_eq_ok.1 hcreate
    have hgains := gains_of_vacancy hplace
    have hadded : disk.addNamed directory name (.file []) = (opened, between) := Except.ok.inj hsame
    have hnode : disk.nodes.size = opened := congrArg Prod.fst hadded
    rw [hadded] at hgains
    subst hnode
    show disk.Emptied path disk.nodes.size (between.truncate disk.nodes.size)
    rw [truncate_of_file hgains.created]
    exact .created hplace (hgains.setBytes []) (setBytes_setBytes between disk.nodes.size [] [])

namespace Emptied

theorem size (h : disk.Emptied path node later) : later.size node = 0 := by
  cases h with
  | file hfile => exact size_of_file (setBytes_node hfile.content [])
  | device _ _ hsize => exact hsize
  | created _ hgains => exact size_of_file hgains.created

/-- A file that has been emptied has no bytes to lose. -/
theorem setBytes_nil (h : disk.Emptied path node later) (hfile : later.isFile node = true) :
    later.setBytes node [] = later := by
  cases h with
  | file => exact setBytes_setBytes disk node [] []
  | device _ hdevice =>
    rw [hdevice] at hfile
    cases hfile
  | created _ _ hempty => exact hempty

/-- The path leads to a file without bytes, or it leads to a device. -/
theorem hasFile (h : disk.Emptied path node later) :
    later.HasFile path node [] ∨
      disk.locate path = .ok node ∧ disk.isFile node = false ∧ later = disk := by
  cases h with
  | file hfile => exact .inl (hfile.setBytes [])
  | device hlocate hfile => exact .inr ⟨hlocate, hfile, rfl⟩
  | created hvacant hgains => exact .inl (hgains.hasFile hvacant)

/-- Another file keeps its bytes. -/
theorem others (h : disk.Emptied path node later) (hother : id ≠ node)
    (hfile : disk.content? id = some (.file data)) : later.content? id = some (.file data) := by
  cases h with
  | file => rw [setBytes_other hother, hfile]
  | device => exact hfile
  | created _ hgains =>
    obtain ⟨entries, parent, hdir, _⟩ := hgains.named
    rw [hgains.others id _ hother, hfile]
    rintro rfl
    rw [hfile] at hdir
    cases hdir

/-- A file that the path does not lead to is another one. -/
theorem ne_of_elsewhere (h : disk.Emptied path node later)
    (hfile : disk.content? id = some (.file data)) (helsewhere : disk.locate path ≠ .ok id) :
    id ≠ node := by
  rintro rfl
  cases h with
  | file hthere => exact helsewhere hthere.located
  | device hlocate => exact helsewhere hlocate
  | created _ hgains =>
    rw [hgains.fresh] at hfile
    cases hfile

/-- A file that the path leads to is the one that is opened. -/
theorem eq_of_located (h : disk.Emptied path node later)
    (hfile : disk.content? id = some (.file data)) (hlocate : disk.locate path = .ok id) :
    node = id := by
  cases h with
  | file hthere => exact Except.ok.inj (hthere.located.symm.trans hlocate)
  | device hdevice => exact Except.ok.inj (hdevice.symm.trans hlocate)
  | created hvacant =>
    rw [findToCreate_of_locate hlocate (isDirectory_of_file hfile)] at hvacant
    cases hvacant

/-- Paths lead where they led. -/
theorem locate (h : disk.Emptied path node later) {other : String}
    (hlocate : disk.locate other = .ok id) : later.locate other = .ok id := by
  cases h with
  | file hfile => rw [(sameTree_setBytes hfile.content []).locate, hlocate]
  | device => exact hlocate
  | created _ hgains => exact hgains.grown.locate hlocate

/-- Directories stay directories. -/
theorem isDirectory (h : disk.Emptied path node later) (hdir : disk.isDirectory id = true) :
    later.isDirectory id = true := by
  cases h with
  | file hfile => rw [(sameTree_setBytes hfile.content []).isDirectory, hdir]
  | device => exact hdir
  | created _ hgains => rw [hgains.isDirectory, hdir]

end Emptied

end ArchiveVfs.Disk
