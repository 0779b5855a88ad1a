import ArchiveVfs.Disk.Walk
import ArchiveVfs.Proofs.Outcome

/-!
# Walks step by step

What a walk does with one plain name: it goes to the node of that name in the directory, or
finds the name vacant.
-/

namespace ArchiveVfs.Disk

/-- Whether a name is looked up in a directory. -/
def isPlainName (name : String) : Bool :=
  name ≠ "." && name ≠ ".." && name.utf8ByteSize ≤ maxNameSize

variable {disk : Disk} {last : LastLink} {links : Nat} {id next parent : NodeId}
  {entries : Table NodeId} {name path : String}

theorem of_isPlainName (h : isPlainName name = true) :
    name ≠ "." ∧ name ≠ ".." ∧ ¬ maxNameSize < name.utf8ByteSize := by
  simp only [isPlainName, Bool.and_eq_true, decide_eq_true_eq] at h
  exact ⟨h.1.1, h.1.2, Nat.not_lt.2 h.2⟩

/-- A walk goes on at the node that has the name, unless that is a link. -/
theorem walk_name (rest : List String) (hdir : disk.content? id = some (.directory entries parent))
    (hplain : isPlainName name = true) (hnext : entries.get? name = some next)
    {content : Content} (hcontent : disk.content? next = some content)
    (hlink : ∀ target, content ≠ .link target) :
    disk.walk last links id (name :: rest) = disk.walk last links next rest := by
  obtain ⟨hdot, hdots, hshort⟩ := of_isPlainName hplain
  rw [walk]
  simp only [hdir, if_neg hdot, if_neg hdots, if_neg hshort, hnext, hcontent]
  cases content with
  | link target => exact absurd rfl (hlink target)
  | _ => rfl

/-- What a directory has under a name is found there, links taken for themselves. -/
theorem walk_keep_name (hdir : disk.content? id = some (.directory entries parent))
    (hplain : isPlainName name = true) (hnext : entries.get? name = some next) :
    disk.walk .keep links id [name] = .ok (.node next) := by
  obtain ⟨hdot, hdots, hshort⟩ := of_isPlainName hplain
  rw [walk]
  simp only [hdir, if_neg hdot, if_neg hdots, if_neg hshort, hnext]
  split
  · rfl
  · rw [walk]

/-- A walk ends where nothing has the last name. -/
theorem walk_vacant (hdir : disk.content? id = some (.directory entries parent))
    (hplain : isPlainName name = true) (hnone : entries.get? name = none) :
    disk.walk last links id [name] = .ok (.vacancy id name) := by
  obtain ⟨hdot, hdots, hshort⟩ := of_isPlainName hplain
  rw [walk]
  simp only [hdir, if_neg hdot, if_neg hdots, if_neg hshort, hnone]
  rfl

/-- What a walk along the route of a path finds is what the path leads to. -/
theorem locate_of_walk {names : List String} {place : Place}
    (hroute : Route.ofPath path = .ok { fromRoot := true, names, slashed := false })
    (hwalk : disk.walk .follow maxLinks root names = .ok place) :
    disk.locate path = match place with
      | .node id => .ok id
      | .vacancy .. => .error .notFound := by
  have hfind : disk.find .follow path = .ok place := by
    rw [find, hroute, Outcome.ok_bind]
    exact hwalk
  rw [locate, hfind]
  cases place <;> rfl

/-- A path of one name leads to the node that has the name in the root directory. -/
theorem locate_name
    (hroute : Route.ofPath path = .ok { fromRoot := true, names := [name], slashed := false })
    (hroot : disk.content? root = some (.directory entries parent))
    (hplain : isPlainName name = true) (hnext : entries.get? name = some next)
    {content : Content} (hcontent : disk.content? next = some content)
    (hlink : ∀ target, content ≠ .link target) : disk.locate path = .ok next := by
  have hwalk : disk.walk .follow maxLinks root [name] = .ok (.node next) := by
    rw [walk_name [] hroot hplain hnext hcontent hlink, walk]
  exact locate_of_walk hroute hwalk

theorem locate_vacant
    (hroute : Route.ofPath path = .ok { fromRoot := true, names := [name], slashed := false })
    (hroot : disk.content? root = some (.directory entries parent))
    (hplain : isPlainName name = true) (hnone : entries.get? name = none) :
    disk.locate path = .error .notFound :=
  locate_of_walk hroute (walk_vacant hroot hplain hnone)

/-- There a file can be created. -/
theorem findToCreate_vacant
    (hroute : Route.ofPath path = .ok { fromRoot := true, names := [name], slashed := false })
    (hroot : disk.content? root = some (.directory entries parent))
    (hplain : isPlainName name = true) (hnone : entries.get? name = none) :
    disk.findToCreate path = .ok (.vacancy root name) := by
  rw [findToCreate, hroute, Outcome.ok_bind]
  exact walk_vacant hroot hplain hnone

end ArchiveVfs.Disk
