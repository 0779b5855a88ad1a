import ArchiveVfs.Disk.Tree
import ArchiveVfs.Proofs.Disk.Growth

/-!
# Making directories

A directory that is made changes nothing but the directory that holds it, which gains its name and
is written to by that. What may become of a tree in that way is collected in `Grown`; `Adds` says
in addition which paths lead to the new directories.
-/

namespace ArchiveVfs

/-- The names `more` are the names `entries`, and further ones for nodes from `first` on. -/
def Table.Widens (first : NodeId) (entries more : Table NodeId) : Prop :=
  ∀ name, more.get? name = entries.get? name ∨
    (entries.get? name = none ∧ ∃ next, more.get? name = some next ∧ first ≤ next)

/-- What becomes of a node in a tree that now gains nodes from `first` on: nothing, or it is a
directory and gains names for them. -/
inductive Node.Widened (first : NodeId) (now : Int) (node : Node) : Node → Prop where
  | same : Widened first now node node
  | directory {entries more : Table NodeId} {parent : NodeId}
      (hcontent : node.content = .directory entries parent) (hnames : entries.Widens first more) :
      Widened first now node { node with content := .directory more parent, writeTime := now }

section Widening

variable {first second : NodeId} {now : Int}

theorem Table.Widens.trans {entries more most : Table NodeId} (hle : first ≤ second)
    (hfirst : entries.Widens first more) (hsecond : more.Widens second most) :
    entries.Widens first most := by
  intro name
  rcases hsecond name with hkept | ⟨hnone, next, hnext, hnew⟩
  · rw [hkept]
    exact hfirst name
  · rcases hfirst name with hsame | ⟨_, other, hother, _⟩
    · exact .inr ⟨hsame ▸ hnone, next, hnext, Nat.le_trans hle hnew⟩
    · rw [hnone] at hother
      cases hother

theorem Table.Widens.weaken {entries more : Table NodeId} (hle : first ≤ second)
    (h : entries.Widens second more) : entries.Widens first more :=
  Table.Widens.trans hle (fun _ => .inl rfl) h

theorem Node.Widened.trans {node between last : Node} (hle : first ≤ second)
    (hfirst : node.Widened first now between) (hsecond : between.Widened second now last) :
    node.Widened first now last := by
  cases hfirst with
  | same =>
    cases hsecond with
    | same => exact .same
    | directory hcontent hnames => exact .directory hcontent (hnames.weaken hle)
  | directory hcontent hnames =>
    cases hsecond with
    | same => exact .directory hcontent hnames
    | directory hbetween hmore =>
      obtain ⟨rfl, rfl⟩ := Content.directory.inj hbetween
      exact .directory hcontent (hnames.trans hle hmore)

theorem Node.Widened.readOnly {node later : Node} (h : node.Widened first now later) :
    later.readOnly = node.readOnly := by
  cases h <;> rfl

end Widening

namespace Disk

variable {disk later latest : Disk} {id : NodeId} {path : String} {made paths : List String}

/-! ## Trees with directories more -/

/-- The later disk is the disk with some directories more, all of them empty when they were made. -/
structure Grown (disk later : Disk) : Prop where
  here : later.here = disk.here
  clock : later.clock = disk.clock
  size : disk.nodes.size ≤ later.nodes.size
  old : ∀ (id : NodeId) (node : Node), disk.nodes[id]? = some node →
    ∃ next, later.nodes[id]? = some next ∧ node.Widened disk.nodes.size disk.clock next
  new : ∀ (id : NodeId) (node : Node), disk.nodes.size ≤ id → later.nodes[id]? = some node →
    ∃ parent, ({ content := .directory .empty parent, writeTime := disk.clock } : Node).Widened
      disk.nodes.size disk.clock node

namespace Grown

theorem refl (disk : Disk) : Grown disk disk where
  here := rfl
  clock := rfl
  size := Nat.le_refl _
  old _ node hnode := ⟨node, hnode, .same⟩
  new id node hid hnode := by
    rw [Array.getElem?_eq_none hid] at hnode
    cases hnode

theorem trans (hfirst : Grown disk later) (hsecond : Grown later latest) : Grown disk latest where
  here := hsecond.here.trans hfirst.here
  clock := hsecond.clock.trans hfirst.clock
  size := Nat.le_trans hfirst.size hsecond.size
  old id node hnode := by
    obtain ⟨between, hbetween, hwide⟩ := hfirst.old id node hnode
    obtain ⟨last, hlast, hwider⟩ := hsecond.old id between hbetween
    rw [hfirst.clock] at hwider
    exact ⟨last, hlast, hwide.trans hfirst.size hwider⟩
  new id node hid hnode := by
    by_cases hlater : later.nodes.size ≤ id
    · obtain ⟨parent, hwide⟩ := hsecond.new id node hlater hnode
      rw [hfirst.clock] at hwide
      exact ⟨parent, Node.Widened.trans hfirst.size .same hwide⟩
    · have hbetween := Array.getElem?_eq_getElem (Nat.lt_of_not_le hlater)
      obtain ⟨parent, hwide⟩ := hfirst.new id _ hid hbetween
      obtain ⟨last, hlast, hwider⟩ := hsecond.old id _ hbetween
      rw [hfirst.clock] at hwider
      obtain rfl : last = node := Option.some.inj (hlast.symm.trans hnode)
      exact ⟨parent, hwide.trans hfirst.size hwider⟩

/-- A directory keeps its names. -/
theorem directory (h : Grown disk later) {entries : Table NodeId} {parent : NodeId}
    (hdir : disk.content? id = some (.directory entries parent)) :
    ∃ more, later.content? id = some (.directory more parent) ∧
      entries.Widens disk.nodes.size more := by
  obtain ⟨node, hnode, hcontent⟩ := Option.map_eq_some_iff.1 hdir
  obtain ⟨next, hnext, hwide⟩ := h.old id node hnode
  rw [content?, hnext, Option.map_some]
  cases hwide with
  | same => exact ⟨entries, by rw [hcontent], fun _ => .inl rfl⟩
  | directory hold hnames =>
    obtain ⟨rfl, rfl⟩ := Content.directory.inj (hcontent.symm.trans hold)
    exact ⟨_, rfl, hnames⟩

/-- What is no directory stays as it is. -/
theorem content (h : Grown disk later) {old : Content} (hold : disk.content? id = some old)
    (hplain : disk.isDirectory id = false) : later.content? id = some old := by
  obtain ⟨node, hnode, rfl⟩ := Option.map_eq_some_iff.1 hold
  obtain ⟨next, hnext, hwide⟩ := h.old id node hnode
  cases hwide with
  | same => rw [content?, hnext, Option.map_some]
  | directory hcontent _ =>
    have hdir := isDirectory_iff.2 ⟨_, _, hold.trans (congrArg some hcontent)⟩
    rw [hplain] at hdir
    cases hdir

/-- A new node is a directory. -/
theorem isDirectory_new (h : Grown disk later) (hid : disk.nodes.size ≤ id)
    (hinside : id < later.nodes.size) : later.isDirectory id = true := by
  have hnode := Array.getElem?_eq_getElem hinside
  obtain ⟨parent, hwide⟩ := h.new id _ hid hnode
  rw [isDirectory_iff, content?, hnode, Option.map_some]
  generalize later.nodes[id] = node at hwide
  cases hwide with
  | same => exact ⟨_, _, rfl⟩
  | directory => exact ⟨_, _, rfl⟩

/-- Nothing that is no link becomes one. -/
theorem link (h : Grown disk later) {target : String} :
    later.content? id = some (.link target) ↔ disk.content? id = some (.link target) := by
  constructor
  · intro hlink
    cases hold : disk.content? id with
    | none =>
      have hid : disk.nodes.size ≤ id := by simpa [content?] using hold
      have hinside : id < later.nodes.size := by
        obtain ⟨node, hnode, _⟩ := Option.map_eq_some_iff.1 hlink
        exact (Array.getElem?_eq_some_iff.1 hnode).1
      obtain ⟨entries, parent, hdir⟩ := isDirectory_iff.1 (h.isDirectory_new hid hinside)
      rw [hlink] at hdir
      cases hdir
    | some old =>
      cases hplain : disk.isDirectory id with
      | true =>
        obtain ⟨entries, parent, hdir⟩ := isDirectory_iff.1 hplain
        obtain ⟨more, hmore, _⟩ := h.directory hdir
        rw [hlink] at hmore
        cases hmore
      | false => rw [← h.content hold hplain, hlink]
  · intro hlink
    exact h.content hlink (by simp [isDirectory, entries?, hlink])

/-- A tree that has directories more has grown, if the present directory is there. -/
theorem grown (h : Grown disk later) (hhere : disk.isDirectory disk.here = true) :
    Extends disk later where
  here := h.here
  start := by
    obtain ⟨entries, parent, hdir⟩ := isDirectory_iff.1 hhere
    obtain ⟨more, hmore, _⟩ := h.directory hdir
    rw [hhere, isDirectory_iff.2 ⟨more, parent, hmore⟩]
  directory id entries parent hdir := by
    obtain ⟨more, hmore, hnames⟩ := h.directory hdir
    refine ⟨more, hmore, fun name next hnext => ?_⟩
    rcases hnames name with hkept | ⟨hnone, _⟩
    · rw [hkept, hnext]
    · rw [hnone] at hnext
      cases hnext
  link _ _ := h.link
  gained id entries parent more name next hdir hmore hnone hnext target hlink := by
    obtain ⟨_, hcontent, hnames⟩ := h.directory hdir
    obtain ⟨rfl, _⟩ := Content.directory.inj (Option.some.inj (hmore.symm.trans hcontent))
    rcases hnames name with hkept | ⟨_, other, hother, hnew⟩
    · rw [hkept, hnone] at hnext
      cases hnext
    · obtain rfl : other = next := Option.some.inj (hother.symm.trans hnext)
      -- what was linked to was there before, and a new node was not
      obtain ⟨node, hnode, _⟩ := Option.map_eq_some_iff.1 (h.link.1 hlink)
      rw [Array.getElem?_eq_none hnew] at hnode
      cases hnode

theorem isDirectory_here (h : Grown disk later) (hhere : disk.isDirectory disk.here = true) :
    later.isDirectory later.here = true := by
  rw [h.here]
  exact (h.grown hhere).isDirectory hhere

end Grown

/-- Under a name that a directory did not have, a new directory is all that is there more. -/
theorem grown_addNamed {directory parent : NodeId} {entries : Table NodeId} {name : String}
    (hdir : disk.content? directory = some (.directory entries parent))
    (hnone : entries.get? name = none) :
    Grown disk (disk.addNamed directory name (.directory .empty directory)).2 := by
  obtain ⟨found, hfound, hcontent⟩ := Option.map_eq_some_iff.1 hdir
  have hnodes := nodes_addNamed hfound name (.directory .empty directory)
  have hsize : (disk.addNamed directory name (.directory .empty directory)).2.nodes.size
      = disk.nodes.size + 1 := by
    simp [addNamed, add, update]
  have hinside : directory < disk.nodes.size := (Array.getElem?_eq_some_iff.1 hfound).1
  refine ⟨rfl, rfl, by omega, fun id node hnode => ?_, fun id node hid hnode => ?_⟩
  · have hold : id < disk.nodes.size := (Array.getElem?_eq_some_iff.1 hnode).1
    rw [hnodes]
    by_cases hhere : directory = id
    · subst hhere
      obtain rfl : found = node := Option.some.inj (hfound.symm.trans hnode)
      rw [if_pos rfl]
      refine ⟨_, rfl, ?_⟩
      rw [Node.withEntries, hcontent]
      refine .directory hcontent fun other => ?_
      rw [Table.get?_insert]
      split
      · rename_i hsame
        exact .inr ⟨hsame ▸ hnone, disk.nodes.size, rfl, Nat.le_refl _⟩
      · exact .inl rfl
    · rw [if_neg hhere, if_neg (Nat.ne_of_lt hold)]
      exact ⟨node, hnode, .same⟩
  · rw [hnodes, if_neg (Nat.ne_of_lt (Nat.lt_of_lt_of_le hinside hid))] at hnode
    split at hnode
    · obtain rfl := Option.some.inj hnode
      exact ⟨directory, .same⟩
    · rw [Array.getElem?_eq_none hid] at hnode
      cases hnode

/-! ## Making one directory -/

/-- All that making a directory can do: the last name is vacant in an unmarked directory, and
names a new directory afterwards. -/
theorem createDirectory_eq_ok (h : disk.createDirectory path = .ok later) :
    ∃ route directory name, Route.ofPath path = .ok route ∧
      disk.walk .keep maxLinks (disk.startOf route disk.here) route.names
        = .ok (.vacancy directory name) ∧
      disk.isMarked directory = false ∧
      later = (disk.addNamed directory name (.directory .empty directory)).2 := by
  rw [createDirectory, blame, Outcome.mapError_eq_ok] at h
  obtain ⟨route, hroute, h⟩ := Outcome.bind_eq_ok.1 h
  obtain ⟨place, hwalk, h⟩ := Outcome.bind_eq_ok.1 h
  cases place with
  | node id => cases h
  | vacancy directory name =>
    obtain ⟨_, hfree, h⟩ := Outcome.bind_eq_ok.1 h
    refine ⟨route, directory, name, hroute, hwalk, ?_, (Except.ok.inj h).symm⟩
    cases hmarked : disk.isMarked directory with
    | false => rfl
    | true =>
      rw [demandChange, if_pos hmarked] at hfree
      cases hfree

/-- The later disk has directories more, which these paths lead to, in this order. -/
structure Adds (disk later : Disk) (made : List String) : Prop where
  grown : Grown disk later
  size : later.nodes.size = disk.nodes.size + made.length
  located : ∀ i directory, made[i]? = some directory →
    later.locate directory = .ok (disk.nodes.size + i)

namespace Adds

theorem refl (disk : Disk) : Adds disk disk [] :=
  ⟨.refl disk, rfl, fun _ _ hnone => by cases hnone⟩

theorem trans {more : List String} (hfirst : Adds disk later made)
    (hhere : disk.isDirectory disk.here = true) (hsecond : Adds later latest more) :
    Adds disk latest (made ++ more) where
  grown := hfirst.grown.trans hsecond.grown
  size := by rw [hsecond.size, hfirst.size, List.length_append, Nat.add_assoc]
  located i directory hdir := by
    by_cases hi : i < made.length
    · rw [List.getElem?_append_left hi] at hdir
      exact (hsecond.grown.grown (hfirst.grown.isDirectory_here hhere)).locate
        (hfirst.located i directory hdir)
    · have hbehind := Nat.le_of_not_lt hi
      rw [List.getElem?_append_right hbehind] at hdir
      rw [hsecond.located _ directory hdir, hfirst.size, Nat.add_assoc,
        Nat.add_sub_cancel' hbehind]

/-- A path that was made leads to a directory. -/
theorem directoryExists (h : Adds disk later made) {directory : String} (hmem : directory ∈ made) :
    later.directoryExists directory = true := by
  obtain ⟨i, hi, rfl⟩ := List.getElem_of_mem hmem
  rw [Disk.directoryExists, h.located i _ (List.getElem?_eq_getElem hi)]
  exact h.grown.isDirectory_new (Nat.le_add_right _ _) (h.size ▸ Nat.add_lt_add_left hi _)

end Adds

/-- A directory that is made is there, and nothing else is there more. -/
theorem createDirectory_adds (hhere : disk.isDirectory disk.here = true)
    (h : disk.createDirectory path = .ok later) : Adds disk later [path] := by
  obtain ⟨route, directory, name, hroute, hwalk, _, rfl⟩ := createDirectory_eq_ok h
  obtain ⟨entries, parent, hdir, hnone⟩ := walk_vacancy hwalk
  have hgrown := grown_addNamed hdir hnone
  have hextends := hgrown.grown hhere
  have hnode := child_addNamed hdir name (.directory .empty directory)
  have hsize : (disk.addNamed directory name (.directory .empty directory)).2.nodes.size
      = disk.nodes.size + 1 := by
    simp [addNamed, add, update]
  generalize (disk.addNamed directory name (.directory .empty directory)).2 = later at *
  have hnew := hextends.walk (walk_vacancy_follow hwalk)
  rw [settle, hnode] at hnew
  have hdir := hgrown.isDirectory_new (Nat.le_refl _) (by omega : disk.nodes.size < _)
  refine ⟨hgrown, hsize, fun i made hmade => ?_⟩
  obtain ⟨rfl, rfl⟩ : i = 0 ∧ path = made := by
    cases i with
    | zero => exact ⟨rfl, by simpa using hmade⟩
    | succ i => simp at hmade
  rw [locate, find, hroute, Outcome.ok_bind, hextends.startOf_here,
    walk_steps.2 ⟨hnew, .inr hdir⟩]
  rfl

end Disk

end ArchiveVfs
