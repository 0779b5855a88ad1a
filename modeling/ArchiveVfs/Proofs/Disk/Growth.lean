import ArchiveVfs.Disk.Build
import ArchiveVfs.Proofs.Disk.Paths
import ArchiveVfs.Proofs.Disk.Walking

/-!
# Walks in parts, and on trees that have grown

A walk along some names and then others is a walk along the first that is gone on with
(`walk_append`), and none goes on that has not come to a directory (`of_walk_append`). When
directories gain names (`Extends`), every walk that came to an end ends there still, unless it ended
where a name was vacant that is there now (`Extends.walk`).
-/

namespace ArchiveVfs.Disk

variable {disk later latest : Disk} {last : LastLink} {links : Nat} {id mid : NodeId}
  {names more : List String} {path : String}

/-! ## Walks in parts -/

theorem isEmpty_append_right {front : List String} (hmore : more ≠ []) :
    (front ++ more).isEmpty = false := by
  simp [hmore]

/-- A walk that came to a node goes on from there, with the links that it has not used. -/
theorem walk_append (hwalk : disk.walk .follow links id names = .ok (.node mid)) :
    ∃ left, ∀ last more, more ≠ [] →
      disk.walk last links id (names ++ more) = disk.walk last left mid more := by
  generalize hlast : LastLink.follow = first at hwalk
  fun_induction Disk.walk disk first links id names <;> subst hlast
  case case1 =>
    cases hwalk
    exact ⟨_, fun _ _ _ => rfl⟩
  case case2 hdir ih =>
    obtain ⟨left, hleft⟩ := ih rfl hwalk
    refine ⟨left, fun last more hmore => ?_⟩
    rw [List.cons_append, Disk.walk, hdir]
    exact hleft last more hmore
  case case3 hdir _ ih =>
    obtain ⟨left, hleft⟩ := ih rfl hwalk
    refine ⟨left, fun last more hmore => ?_⟩
    rw [List.cons_append, Disk.walk, hdir]
    exact hleft last more hmore
  case case10 hdir hdot hdots hshort next hnext target hlink links route start _ _ ih =>
    obtain ⟨left, hleft⟩ := ih rfl hwalk
    refine ⟨left, fun last more hmore => ?_⟩
    -- behind the names there are more, so the link is not the last one
    rw [List.cons_append, Disk.walk, hdir, ← hleft last more hmore]
    simp only [if_neg hdot, if_neg hdots, if_neg hshort, hnext, hlink, isEmpty_append_right hmore,
      Bool.false_and, List.append_assoc]
    rfl
  case case11 hdir hdot hdots hshort next hnext hlink ih =>
    obtain ⟨left, hleft⟩ := ih rfl hwalk
    refine ⟨left, fun last more hmore => ?_⟩
    rw [List.cons_append, Disk.walk, hdir, ← hleft last more hmore]
    simp only [if_neg hdot, if_neg hdots, if_neg hshort, hnext]
  all_goals grind

/-- A walk that came to an end behind some names came to a node with them. -/
theorem of_walk_append {place : Place} (hmore : more ≠ [])
    (hwalk : disk.walk last links id (names ++ more) = .ok place) :
    ∃ mid, disk.walk .follow links id names = .ok (.node mid) := by
  generalize hwhole : names ++ more = whole at hwalk
  fun_induction Disk.walk disk last links id whole generalizing names
  case case1 => simp [hmore] at hwhole
  all_goals
    rcases List.append_eq_cons_iff.1 hwhole with ⟨rfl, rfl⟩ | ⟨front, rfl, rfl⟩
    · exact ⟨_, by rw [Disk.walk]⟩
  case case2.inr hdir ih =>
    obtain ⟨mid, hmid⟩ := ih rfl hwalk
    refine ⟨mid, ?_⟩
    rw [Disk.walk, hdir]
    exact hmid
  case case3.inr hdir _ ih =>
    obtain ⟨mid, hmid⟩ := ih rfl hwalk
    refine ⟨mid, ?_⟩
    rw [Disk.walk, hdir]
    exact hmid
  case case10.inr hdir hdot hdots hshort next hnext target hlink links route start _ _ ih =>
    obtain ⟨mid, hmid⟩ := ih (List.append_assoc ..) hwalk
    refine ⟨mid, ?_⟩
    rw [Disk.walk, hdir, ← hmid]
    simp only [if_neg hdot, if_neg hdots, if_neg hshort, hnext, hlink, reduceCtorEq,
      decide_false, Bool.and_false, Bool.false_and, Bool.false_eq_true, if_false]
    rfl
  case case11.inr hdir hdot hdots hshort next hnext hlink ih =>
    obtain ⟨mid, hmid⟩ := ih rfl hwalk
    refine ⟨mid, ?_⟩
    rw [Disk.walk, hdir, ← hmid]
    simp only [if_neg hdot, if_neg hdots, if_neg hshort, hnext]
  all_goals grind [isEmpty_append_right]

/-- Only in a directory names lead on. -/
theorem isDirectory_of_walk {place : Place} (hmore : more ≠ [])
    (hwalk : disk.walk last links id more = .ok place) : disk.isDirectory id = true := by
  obtain ⟨name, rest, rfl⟩ := List.exists_cons_of_ne_nil hmore
  rw [walk] at hwalk
  split at hwalk
  · rename_i hdir
    exact isDirectory_iff.2 ⟨_, _, hdir⟩
  · cases hwalk

/-- What is vacant where a link is kept or may be created is vacant where it is followed. -/
theorem walk_vacancy_follow {directory : NodeId} {name : String}
    (hwalk : disk.walk last links id names = .ok (.vacancy directory name)) :
    disk.walk .follow links id names = .ok (.vacancy directory name) := by
  fun_induction Disk.walk disk last links id names <;> rw [Disk.walk]
  all_goals grind

/-- What a walk finds vacant is the last name, which a directory does not have. -/
theorem walk_vacancy {directory : NodeId} {name : String}
    (hwalk : disk.walk last links id names = .ok (.vacancy directory name)) :
    ∃ entries parent, disk.content? directory = some (.directory entries parent) ∧
      entries.get? name = none := by
  fun_induction Disk.walk disk last links id names
  all_goals grind

/-- A lone dot asks for a directory. -/
theorem walk_dot {node : NodeId} :
    disk.walk .follow links id ["."] = .ok (.node node) ↔
      id = node ∧ disk.isDirectory id = true := by
  rw [walk]
  split
  · rename_i hdir
    have hthere : disk.isDirectory id = true := isDirectory_iff.2 ⟨_, _, hdir⟩
    simp [walk, hthere]
  · rename_i hother
    have hnone : ¬ disk.isDirectory id = true := by
      intro hthere
      obtain ⟨entries, parent, hdir⟩ := isDirectory_iff.1 hthere
      exact hother entries parent hdir
    simp [hnone]

/-- So does a slash at the end of a path. -/
theorem walk_steps {route : Route} {node : NodeId} :
    disk.walk .follow links id route.steps = .ok (.node node) ↔
      disk.walk .follow links id route.names = .ok (.node node) ∧
        (route.slashed = false ∨ disk.isDirectory node = true) := by
  rw [Route.steps]
  cases hslashed : route.slashed with
  | false => simp
  | true =>
    simp only [if_true, reduceCtorEq, false_or]
    constructor
    · intro hsteps
      obtain ⟨mid, hmid⟩ := of_walk_append (List.cons_ne_nil _ _) hsteps
      obtain ⟨left, hleft⟩ := walk_append hmid
      rw [hleft _ _ (List.cons_ne_nil _ _)] at hsteps
      obtain ⟨rfl, hdir⟩ := walk_dot.1 hsteps
      exact ⟨hmid, hdir⟩
    · rintro ⟨hnames, hdir⟩
      obtain ⟨left, hleft⟩ := walk_append hnames
      rw [hleft _ _ (List.cons_ne_nil _ _)]
      exact walk_dot.2 ⟨rfl, hdir⟩

/-! ## Trees that have grown -/

/-- A new node stands behind the old ones; of these only the directory is touched. -/
theorem nodes_addNamed {directory : NodeId} {found : Node}
    (hdir : disk.nodes[directory]? = some found)
    (name : String) (content : Content) (id : NodeId) :
    (disk.addNamed directory name content).2.nodes[id]?
      = if directory = id then
          some (Node.withEntries (·.insert name disk.nodes.size) disk.clock found)
        else if id = disk.nodes.size then some { content, writeTime := disk.clock }
        else disk.nodes[id]? := by
  have hinside : directory < disk.nodes.size := by
    obtain ⟨hinside, -⟩ := Array.getElem?_eq_some_iff.1 hdir
    exact hinside
  by_cases hhere : directory = id
  · subst hhere
    simp [addNamed, add, update, Array.getElem?_modify, Array.getElem?_push, Nat.ne_of_lt hinside,
      hdir]
  · simp [addNamed, add, update, Array.getElem?_modify, Array.getElem?_push, hhere]

section AddNamed

variable {directory parent : NodeId} {entries : Table NodeId}
  (hdir : disk.content? directory = some (.directory entries parent)) (name : String)
  (content : Content)
include hdir

theorem node_addNamed : (disk.addNamed directory name content).2.nodes[disk.nodes.size]?
    = some { content, writeTime := disk.clock } := by
  obtain ⟨found, hfound, _⟩ := Option.map_eq_some_iff.1 hdir
  have hinside : directory < disk.nodes.size := (Array.getElem?_eq_some_iff.1 hfound).1
  rw [nodes_addNamed hfound, if_neg (Nat.ne_of_lt hinside), if_pos rfl]

theorem child_addNamed :
    (disk.addNamed directory name content).2.child? directory name = some disk.nodes.size := by
  obtain ⟨found, hfound, hcontent⟩ := Option.map_eq_some_iff.1 hdir
  have hnode := nodes_addNamed hfound name content directory
  rw [if_pos rfl] at hnode
  simp [child?, entries?, content?, hnode, Node.withEntries, hcontent, Table.get?_insert]

end AddNamed

/-- The later disk has all that the disk has; directories may have names more, for new nodes that
are no links. -/
structure Extends (disk later : Disk) : Prop where
  here : later.here = disk.here
  start : later.isDirectory disk.here = disk.isDirectory disk.here
  directory : ∀ id entries parent, disk.content? id = some (.directory entries parent) →
    ∃ more, later.content? id = some (.directory more parent) ∧
      ∀ name next, entries.get? name = some next → more.get? name = some next
  link : ∀ id target, later.content? id = some (.link target) ↔
    disk.content? id = some (.link target)
  gained : ∀ id entries parent more name next, disk.content? id = some (.directory entries parent) →
    later.content? id = some (.directory more parent) → entries.get? name = none →
    more.get? name = some next → ∀ target, later.content? next ≠ some (.link target)

/-- Where a walk that ended at a place ends on the later disk. -/
def settle (later : Disk) : Place → Place
  | .node id => .node id
  | .vacancy directory name =>
    match later.child? directory name with
    | some next => .node next
    | none => .vacancy directory name

namespace Extends

theorem isDirectory (h : Extends disk later) (hdir : disk.isDirectory id = true) :
    later.isDirectory id = true := by
  obtain ⟨entries, parent, hcontent⟩ := isDirectory_iff.1 hdir
  obtain ⟨more, hmore, _⟩ := h.directory id entries parent hcontent
  exact isDirectory_iff.2 ⟨more, parent, hmore⟩

theorem startOf_here (h : Extends disk later) (route : Route) :
    later.startOf route later.here = disk.startOf route disk.here := by
  rw [startOf, startOf, h.here, h.start]

theorem startOf_directory (h : Extends disk later) (hdir : disk.isDirectory id = true)
    (route : Route) : later.startOf route id = disk.startOf route id := by
  rw [startOf, startOf, hdir, h.isDirectory hdir]

/-- A walk that ended where a name was vacant ends at the node that has the name now; any
other walk that came to an end ends there still. -/
theorem walk (h : Extends disk later) {found : Place}
    (hwalk : disk.walk .follow links id names = .ok found) :
    later.walk .follow links id names = .ok (later.settle found) := by
  generalize hlast : LastLink.follow = last at hwalk
  -- step by step both walks meet the same nodes; only at a vacancy the later one may go on
  fun_induction Disk.walk disk last links id names <;> subst hlast
  case case1 =>
    obtain rfl := Except.ok.inj hwalk
    rw [Disk.walk, settle]
  case case2 hdir ih =>
    obtain ⟨more, hmore, _⟩ := h.directory _ _ _ hdir
    rw [Disk.walk, hmore]
    exact ih rfl hwalk
  case case3 hdir _ ih =>
    obtain ⟨more, hmore, _⟩ := h.directory _ _ _ hdir
    rw [Disk.walk, hmore]
    exact ih rfl hwalk
  case case5 id name rest entries parent hdir hdot hdots hshort hnone hlast =>
    obtain ⟨more, hmore, _⟩ := h.directory _ _ _ hdir
    obtain rfl := Except.ok.inj hwalk
    have hchild : later.child? id name = more.get? name := by
      simp [child?, entries?, hmore]
    rw [Disk.walk, hmore, settle, hchild]
    simp only [if_neg hdot, if_neg hdots, if_neg hshort]
    cases hname : more.get? name with
    | none => simp only [if_pos hlast]
    | some next =>
      have hplain := h.gained _ _ _ _ _ _ hdir hmore hnone hname
      rw [List.isEmpty_iff.1 hlast]
      dsimp only
      split
      · exact absurd ‹_› (hplain _)
      · rw [Disk.walk]
  case case10 id name rest entries parent hdir hdot hdots hshort next hnext target hlink
      links route start _ _ ih =>
    obtain ⟨more, hmore, hnames⟩ := h.directory _ _ _ hdir
    have hstart := h.startOf_directory (isDirectory_iff.2 ⟨_, _, hdir⟩) (Route.ofText target)
    rw [Disk.walk, hmore]
    simp only [if_neg hdot, if_neg hdots, if_neg hshort, hnames _ _ hnext,
      (h.link _ _).2 hlink, hstart]
    simpa using ih rfl hwalk
  case case11 id name rest entries parent hdir hdot hdots hshort next hnext hlink ih =>
    obtain ⟨more, hmore, hnames⟩ := h.directory _ _ _ hdir
    have hplain : ∀ target, later.content? next ≠ some (.link target) :=
      fun target hnew => hlink target ((h.link _ _).1 hnew)
    rw [Disk.walk, hmore, ← ih rfl hwalk]
    simp only [if_neg hdot, if_neg hdots, if_neg hshort, hnames _ _ hnext]
  all_goals grind

/-- Paths lead where they led. -/
theorem locate (h : Extends disk later) (hlocate : disk.locate path = .ok id) :
    later.locate path = .ok id := by
  obtain ⟨found, hfind, hfound⟩ := Outcome.bind_eq_ok.1 hlocate
  obtain ⟨route, hroute, hwalk⟩ := Outcome.bind_eq_ok.1 hfind
  cases found with
  | vacancy directory name => cases hfound
  | node other =>
    have hlater := h.walk hwalk
    rw [Disk.locate, find, hroute, Outcome.ok_bind, h.startOf_here, hlater]
    exact hfound

theorem directoryExists (h : Extends disk later) (hexists : disk.directoryExists path = true) :
    later.directoryExists path = true := by
  rw [Disk.directoryExists] at hexists ⊢
  cases hlocate : disk.locate path with
  | error fault =>
    rw [hlocate] at hexists
    cases hexists
  | ok id =>
    rw [hlocate] at hexists
    rw [h.locate hlocate]
    exact h.isDirectory hexists

end Extends

end ArchiveVfs.Disk
