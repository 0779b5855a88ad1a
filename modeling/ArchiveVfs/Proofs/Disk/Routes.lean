import ArchiveVfs.Disk.Tree
import ArchiveVfs.Proofs.Disk.Growth
import ArchiveVfs.Proofs.Uri.Appending

/-!
# Paths from the root

A path from the root leads where its segments do (`locate_slash`). So what a directory has under a
name is where the path of the directory with the name behind it leads, unless that is a link or the
whole path is too long for the system (`locate_append`), and what a directory lists is there
(`fileExists_of_listFiles`, `directoryExists_of_listDirectories`).
-/

namespace ArchiveVfs.Disk

open NativePath Text
open Uri (appendChars getLast?_appendChars head?_appendChars mem_appendChars segments_appendChars)

variable {disk : Disk} {rest : List Char} {route : Route}

theorem ofText_slash (rest : List Char) :
    (Route.ofText (String.ofList ('/' :: rest))).fromRoot = true ∧
      (Route.ofText (String.ofList ('/' :: rest))).names = (segments rest).map String.ofList := by
  rw [Route.ofText, String.toList_ofList]
  refine ⟨rfl, ?_⟩
  rw [← segments_slash rest]
  rfl

/-! ## Which paths the system accepts -/

/-- A path that the system accepts is the route that it spells. -/
theorem ofPath_eq_ok {path : String} (h : Route.ofPath path = .ok route) :
    path.toList.contains '\x00' = false ∧ path.utf8ByteSize ≤ maxPathSize ∧
      route = .ofText path := by
  rw [Route.ofPath] at h
  split at h
  · cases h
  · split at h
    · cases h
    · split at h
      · cases h
      · rename_i hnul _ hsize
        exact ⟨by simpa using hnul, Nat.not_lt.1 hsize, (Except.ok.inj h).symm⟩

theorem ofPath_ofText {path : String} (hsome : path.toList ≠ []) (hnul : '\x00' ∉ path.toList)
    (hsize : path.utf8ByteSize ≤ maxPathSize) : Route.ofPath path = .ok (.ofText path) := by
  rw [Route.ofPath, if_neg (by simpa using hnul), if_neg (by simpa using hsome),
    if_neg (Nat.not_lt.2 hsize)]

/-- A beginning of a path that the system accepts is accepted. -/
theorem ofPath_of_isPrefix {front whole : List Char} (hbegins : front <+: whole)
    (hsome : front ≠ []) (h : Route.ofPath (String.ofList whole) = .ok route) :
    Route.ofPath (String.ofList front) = .ok (.ofText (String.ofList front)) := by
  obtain ⟨hnul, hsize, _⟩ := ofPath_eq_ok h
  obtain ⟨behind, rfl⟩ := hbegins
  rw [String.ofList_append, String.utf8ByteSize_append] at hsize
  rw [String.toList_ofList] at hnul
  simp only [List.contains_append, Bool.or_eq_false_iff] at hnul
  refine ofPath_ofText ?_ ?_ (by omega) <;> rw [String.toList_ofList]
  · exact hsome
  · simpa using hnul.1

/-! ## Where paths lead -/

/-- A path from the root leads where its names do; a slash at its end asks for a directory. -/
theorem locate_slash {id : NodeId} (h : Route.ofPath (String.ofList ('/' :: rest)) = .ok route) :
    disk.locate (String.ofList ('/' :: rest)) = .ok id ↔
      disk.walk .follow maxLinks root ((segments rest).map String.ofList) = .ok (.node id) ∧
        (route.slashed = false ∨ disk.isDirectory id = true) := by
  obtain ⟨_, _, rfl⟩ := ofPath_eq_ok h
  obtain ⟨hroot, hnames⟩ := ofText_slash rest
  rw [← hnames, ← walk_steps, locate, find, h, Outcome.ok_bind, startOf, if_pos hroot]
  cases disk.walk .follow maxLinks root (Route.ofText (String.ofList ('/' :: rest))).steps with
  | error fault => simp [bind, Except.bind]
  | ok place =>
    cases place with
    | node other => simp [bind, Except.bind, pure, Except.pure]
    | vacancy directory name => simp [bind, Except.bind, throw, throwThe, MonadExceptOf.throw]

/-- What a path leads to, the system accepts. -/
theorem accepted_of_locate {path : String} {id : NodeId} (h : disk.locate path = .ok id) :
    ∃ route, Route.ofPath path = .ok route := by
  obtain ⟨_, hfind, _⟩ := Outcome.bind_eq_ok.1 h
  obtain ⟨route, hroute, _⟩ := Outcome.bind_eq_ok.1 hfind
  exact ⟨route, hroute⟩

theorem fileExists_of_long {path : String} (h : maxPathSize < path.utf8ByteSize) :
    disk.fileExists path = false := by
  rw [fileExists]
  split
  · rename_i id hid
    obtain ⟨route, hroute⟩ := accepted_of_locate hid
    exact absurd (ofPath_eq_ok hroute).2.1 (Nat.not_le.2 h)
  · rfl

/-- A name that a directory of the disk can have. -/
structure Accepts (name : String) : Prop where
  plain : isPlainName name = true
  part : EntryPath.IsPart name
  noNul : '\x00' ∉ name.toList

/-- All names in directories can be such. -/
def Named (disk : Disk) : Prop :=
  ∀ id entries parent, disk.content? id = some (.directory entries parent) →
    ∀ name, entries.contains name = true → Accepts name

/-- What a directory has under a name, and what is no link, lies behind the directory. -/
theorem locate_append {path name : String} {id next parent : NodeId} {entries : Table NodeId}
    {content : Content} (hroot : path.toList.head? = some '/')
    (hsize : (String.ofList (appendChars path.toList name.toList)).utf8ByteSize ≤ maxPathSize)
    (hid : disk.locate path = .ok id) (hdir : disk.content? id = some (.directory entries parent))
    (hname : Accepts name) (hnext : entries.get? name = some next)
    (hcontent : disk.content? next = some content) (hlink : ∀ target, content ≠ .link target) :
    disk.locate (String.ofList (appendChars path.toList name.toList)) = .ok next := by
  obtain ⟨front, hfront⟩ := List.head?_eq_some_iff.1 hroot
  obtain ⟨rest, hrest⟩ := List.head?_eq_some_iff.1 (head?_appendChars hroot name.toList)
  have hsegments : segments rest = segments front ++ [name.toList] := by
    have hwhole := segments_appendChars hroot hname.part
    rwa [hrest, hfront, segments_slash, segments_slash] at hwhole
  obtain ⟨route, hroute⟩ := accepted_of_locate hid
  have hnul : '\x00' ∉ appendChars path.toList name.toList := by
    obtain ⟨hnul, _, _⟩ := ofPath_eq_ok hroute
    intro hmem
    rcases mem_appendChars hmem with hmem | hmem | hmem
    · simp [hmem] at hnul
    · cases hmem
    · exact hname.noNul hmem
  have haccepted := ofPath_ofText (by rw [String.toList_ofList, hrest]; exact List.cons_ne_nil _ _)
    (by rwa [String.toList_ofList]) hsize
  have hslashed :
      (Route.ofText (String.ofList (appendChars path.toList name.toList))).slashed = false := by
    rw [Route.ofText, String.toList_ofList]
    exact decide_eq_false (getLast?_appendChars hname.part)
  rw [hrest] at haccepted hslashed ⊢
  rw [← String.ofList_toList (s := path), hfront] at hid hroute
  obtain ⟨hwalk, _⟩ := (locate_slash hroute).1 hid
  -- the walk to the directory may have used links, but the name takes none
  obtain ⟨left, hleft⟩ := walk_append hwalk
  refine (locate_slash haccepted).2 ⟨?_, .inl hslashed⟩
  rw [hsegments, List.map_append, List.map_singleton, String.ofList_toList,
    hleft _ _ (List.cons_ne_nil _ _), walk_name [] hdir hname.plain hnext hcontent hlink, walk]

/-! ## What directories list -/

section Listings

variable {isKind : NodeId → Bool} {path pattern : String} {names : List String}

/-- A listing shows names that the directory has, of the kind that is asked for. -/
theorem listKind_eq_ok (h : disk.listKind isKind path pattern = .ok names) :
    ∃ id entries parent, disk.locate path = .ok id ∧
      disk.content? id = some (.directory entries parent) ∧
      ∀ name ∈ names, ∃ next, entries.get? name = some next ∧ isKind next = true := by
  rw [listKind, blame, Outcome.mapError_eq_ok] at h
  obtain ⟨id, hid, h⟩ := Outcome.bind_eq_ok.1 h
  cases hentries : disk.entries? id with
  | none =>
    rw [hentries] at h
    cases h
  | some entries =>
    rw [hentries] at h
    obtain ⟨parent, hcontent⟩ := entries?_eq_some.1 hentries
    refine ⟨id, entries, parent, hid, hcontent, fun name hname => ?_⟩
    obtain rfl := Except.ok.inj h
    obtain ⟨⟨_, next⟩, hentry, rfl⟩ := List.mem_map.1 hname
    obtain ⟨hin, hkind⟩ := List.mem_filter.1 hentry
    exact ⟨next, Table.get?_of_mem hin, (Bool.and_eq_true_iff.1 hkind).1⟩

/-- What is listed lies behind the directory, if it is of a kind that links are not of. -/
theorem locate_of_listKind (hnamed : disk.Named) (hroot : path.toList.head? = some '/')
    (hkind : ∀ id, isKind id = true →
      ∃ content, disk.content? id = some content ∧ ∀ target, content ≠ .link target)
    (h : disk.listKind isKind path pattern = .ok names) {name : String} (hname : name ∈ names) :
    EntryPath.IsPart name ∧
      ((String.ofList (appendChars path.toList name.toList)).utf8ByteSize ≤ maxPathSize →
        ∃ next, disk.locate (String.ofList (appendChars path.toList name.toList)) = .ok next ∧
          isKind next = true) := by
  obtain ⟨id, entries, parent, hid, hdir, hall⟩ := listKind_eq_ok h
  obtain ⟨next, hnext, hthere⟩ := hall name hname
  have haccepts := hnamed id entries parent hdir name (Option.isSome_of_eq_some hnext)
  obtain ⟨content, hcontent, hlink⟩ := hkind next hthere
  exact ⟨haccepts.part, fun hsize =>
    ⟨next, locate_append hroot hsize hid hdir haccepts hnext hcontent hlink, hthere⟩⟩

theorem fileExists_of_listFiles (hnamed : disk.Named) (hroot : path.toList.head? = some '/')
    (h : disk.listFiles path pattern = .ok names) {name : String} (hname : name ∈ names) :
    EntryPath.IsPart name ∧
      ((String.ofList (appendChars path.toList name.toList)).utf8ByteSize ≤ maxPathSize →
        disk.fileExists (String.ofList (appendChars path.toList name.toList)) = true) := by
  obtain ⟨hpart, hthere⟩ := locate_of_listKind hnamed hroot (fun id hfile => by
    obtain ⟨data, hdata⟩ := isFile_iff.1 hfile
    exact ⟨_, hdata, nofun⟩) h hname
  refine ⟨hpart, fun hsize => ?_⟩
  obtain ⟨next, hnext, hfile⟩ := hthere hsize
  rw [fileExists, hnext]
  exact hfile

theorem directoryExists_of_listDirectories (hnamed : disk.Named)
    (hroot : path.toList.head? = some '/')
    (h : disk.listDirectories path pattern = .ok names) {name : String} (hname : name ∈ names) :
    EntryPath.IsPart name ∧
      ((String.ofList (appendChars path.toList name.toList)).utf8ByteSize ≤ maxPathSize →
        disk.directoryExists (String.ofList (appendChars path.toList name.toList)) = true) := by
  obtain ⟨hpart, hthere⟩ := locate_of_listKind hnamed hroot (fun id hdir => by
    obtain ⟨entries, parent, hcontent⟩ := isDirectory_iff.1 hdir
    exact ⟨_, hcontent, nofun⟩) h hname
  refine ⟨hpart, fun hsize => ?_⟩
  obtain ⟨next, hnext, hdir⟩ := hthere hsize
  rw [directoryExists, hnext]
  exact hdir

end Listings

end ArchiveVfs.Disk
