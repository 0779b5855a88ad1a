import ArchiveVfs.Proofs.Disk.Making
import ArchiveVfs.Proofs.Disk.Routes
import ArchiveVfs.Proofs.Server.Precedence

/-!
# Making the way to a directory

A directory is made together with the directories around it that are missing, the outermost first.
Whatever comes of it, the tree has those directories more that were made before one failed, and
nothing else has changed; and where none fails, the directory is there, so that making it again
changes nothing (`createDirectory_lineage`). No directory fails on the way to a path from the
root (`Passable`) if nothing but directories stands there, the names can be names, and the innermost
directory that is there is not marked read-only: in a marked one nothing is made
(`createDirectory_read_only`).
-/

namespace ArchiveVfs

open NativePath Text

namespace Disk

variable {disk : Disk} {path : List Char}

/-- The path does not lead to a directory. -/
def lacks (disk : Disk) (path : List Char) : Bool :=
  !disk.directoryExists (String.ofList path)

/-- The paths around a path, and the path itself, that have to be made, the outermost first. -/
def missing (disk : Disk) (path : List Char) : List (List Char) :=
  ((lineage path).takeWhile disk.lacks).reverse

theorem missing_of_there (h : disk.lacks path = false) : disk.missing path = [] := by
  obtain ⟨behind, hbehind⟩ := exists_lineage path
  rw [missing, hbehind, List.takeWhile_cons, if_neg (by simp [h]), List.reverse_nil]

theorem missing_of_lacks {c : Char} {more : List Char} (h : disk.lacks path = true)
    (hparent : directoryOf path = some (c :: more)) :
    disk.missing path = disk.missing (c :: more) ++ [path] := by
  rw [missing, lineage_of_some hparent, List.takeWhile_cons, if_pos h, List.reverse_cons]
  rfl

end Disk

namespace Server

variable {disk later : Disk} {path : List Char}

theorem missingDirectories_eq (disk : Disk) (path : List Char) (inner : List String) :
    missingDirectories disk path inner = (disk.missing path).map String.ofList ++ inner := by
  fun_induction missingDirectories disk path inner with
  | case1 path inner hthere =>
    rw [Disk.missing_of_there (by simp [Disk.lacks, hthere])]
    rfl
  | case2 path inner hlacks hnone =>
    rw [Disk.missing, lineage_of_none hnone, List.takeWhile_cons,
      if_pos (by simp [Disk.lacks, hlacks])]
    rfl
  | case3 path inner hlacks directory hdir hempty =>
    rw [Disk.missing, lineage_of_some hdir, if_pos hempty, List.takeWhile_cons,
      if_pos (by simp [Disk.lacks, hlacks])]
    rfl
  | case4 path inner hlacks directory hdir hsome _ ih =>
    rw [ih, Disk.missing, Disk.missing, lineage_of_some hdir, if_neg hsome,
      List.takeWhile_cons, if_pos (by simp [Disk.lacks, hlacks])]
    simp

/-- Making directories in two rows is making them in one. -/
theorem createDirectories_append {front : List String} (rest : List String)
    (h : createDirectories disk front = (.ok (), later)) :
    createDirectories disk (front ++ rest) = createDirectories later rest := by
  induction front generalizing disk with
  | nil =>
    obtain ⟨_, rfl⟩ := Prod.mk.inj h
    rfl
  | cons path front ih =>
    rw [createDirectories] at h
    rw [List.cons_append, createDirectories]
    cases hmake : disk.createDirectory path with
    | error error =>
      rw [hmake] at h
      cases h
    | ok next =>
      rw [hmake] at h
      exact ih h

/-- The directories that are made are the first ones, all of them where none fails. -/
theorem createDirectories_adds (paths : List String) (hhere : disk.isDirectory disk.here = true) :
    ∃ made, made <+: paths ∧ disk.Adds (createDirectories disk paths).2 made ∧
      ((createDirectories disk paths).1 = .ok () → made = paths) := by
  induction paths generalizing disk with
  | nil => exact ⟨[], List.prefix_rfl, .refl disk, fun _ => rfl⟩
  | cons path rest ih =>
    rw [createDirectories]
    cases hmake : disk.createDirectory path with
    | error error => exact ⟨[], List.nil_prefix, .refl disk, fun h => by cases h⟩
    | ok later =>
      have hfirst := Disk.createDirectory_adds hhere hmake
      obtain ⟨made, hbegins, hadds, hall⟩ := ih (hfirst.grown.isDirectory_here hhere)
      refine ⟨path :: made, ?_, hfirst.trans hhere hadds, fun h => ?_⟩
      · exact (List.prefix_cons_inj path).2 hbegins
      · rw [hall h]

end Server

namespace Disk

variable {disk later : Disk} {rest more : List Char} {route : Route}

theorem lacks_eq_false_iff (h : Route.ofPath (String.ofList ('/' :: rest)) = .ok route) :
    disk.lacks ('/' :: rest) = false ↔ ∃ id,
      disk.walk .follow maxLinks root ((segments rest).map String.ofList) = .ok (.node id) ∧
        disk.isDirectory id = true := by
  rw [lacks, Bool.not_eq_false', directoryExists]
  constructor
  · intro hexists
    split at hexists
    · rename_i id hid
      exact ⟨id, ((locate_slash h).1 hid).1, hexists⟩
    · cases hexists
  · rintro ⟨id, hwalk, hdir⟩
    rw [(locate_slash h).2 ⟨hwalk, .inr hdir⟩]
    exact hdir

/-! ## Making the way -/

/-- The names from the root lead to an unmarked directory with these entries. -/
structure Stands (disk : Disk) (names : List String) (id : NodeId) (entries : Table NodeId) :
    Prop where
  walk : disk.walk .follow maxLinks root names = .ok (.node id)
  content : ∃ parent, disk.content? id = some (.directory entries parent)
  unmarked : disk.isMarked id = false

/-- Where such a directory lacks a name, a directory of that name is made, and stands there. -/
theorem Stands.createDirectory {names : List String} {name : String} {id : NodeId}
    {entries : Table NodeId} {path : String} (h : disk.Stands names id entries)
    (hhere : disk.isDirectory disk.here = true) (hroute : Route.ofPath path = .ok route)
    (hroot : route.fromRoot = true) (hnames : route.names = names ++ [name])
    (hplain : isPlainName name = true) (hnone : entries.get? name = none) :
    ∃ later new, disk.createDirectory path = .ok later ∧
      later.Stands (names ++ [name]) new .empty := by
  obtain ⟨parent, hcontent⟩ := h.content
  obtain ⟨left, hleft⟩ := walk_append h.walk
  have hvacant (last : LastLink) : disk.walk last maxLinks root (names ++ [name])
      = .ok (.vacancy id name) := by
    rw [hleft last [name] (List.cons_ne_nil _ _), walk_vacant hcontent hplain hnone]
  have hmake : disk.createDirectory path
      = .ok (disk.addNamed id name (.directory .empty id)).2 := by
    rw [Disk.createDirectory, blame, hroute, Outcome.ok_bind, startOf, if_pos hroot, hnames,
      hvacant .keep]
    simp only [Outcome.ok_bind, demandChange, h.unmarked]
    rfl
  have hnode := node_addNamed hcontent name (.directory .empty id)
  refine ⟨_, disk.nodes.size, hmake, ?_, ⟨id, ?_⟩, ?_⟩
  · have hnew := ((grown_addNamed hcontent hnone).grown hhere).walk (hvacant .follow)
    rw [settle, child_addNamed hcontent] at hnew
    exact hnew
  · rw [content?, hnode, Option.map_some]
  · rw [isMarked, hnode, Option.map_some, Option.getD_some]

/-- Something stands at the path, if only a link that leads nowhere. -/
def Has (disk : Disk) (path : List Char) : Prop :=
  ∃ route id, Route.ofPath (String.ofList path) = .ok route ∧
    disk.walk .keep maxLinks (disk.startOf route disk.here) route.names = .ok (.node id)

/-- What it takes to make the way to a path from the root. -/
structure Passable (disk : Disk) (path : List Char) : Prop where
  absolute : path.head? = some '/'
  accepted : ∃ route, Route.ofPath (String.ofList path) = .ok route
  plain : ∀ name ∈ segments path, isPlainName (String.ofList name) = true
  /-- Whatever stands on the way is a directory. -/
  there : ∀ directory ∈ lineage path, disk.Has directory → disk.lacks directory = false
  /-- The innermost directory that is there, if the path itself is not, may be changed. -/
  free : ∀ directory,
    (lineage path).find? (fun directory => !disk.lacks directory) = some directory →
    directory ≠ path →
    ∀ id, disk.locate (String.ofList directory) = .ok id → disk.isMarked id = false

namespace Passable

theorem noDots (h : disk.Passable ('/' :: rest)) : ['.'] ∉ rest.splitOn '/' := by
  intro hdot
  have hname : ['.'] ∈ segments ('/' :: rest) := by
    rw [segments_slash]
    exact List.mem_filter.2 ⟨hdot, rfl⟩
  have hplain := h.plain _ hname
  exact (of_isPlainName hplain).1 rfl

/-- What holds for a path that is missing holds for its parent. -/
theorem parent {last : List Char} (h : disk.Passable ('/' :: rest))
    (hlacks : disk.lacks ('/' :: rest) = true)
    (hparent : directoryOf ('/' :: rest) = some ('/' :: more))
    (hsegments : segments rest = segments more ++ [last]) : disk.Passable ('/' :: more) := by
  have hlineage : lineage ('/' :: rest) = ('/' :: rest) :: lineage ('/' :: more) :=
    lineage_of_some hparent
  obtain ⟨route, hroute⟩ := h.accepted
  refine ⟨rfl, ⟨_, ofPath_of_isPrefix (directoryOf_isPrefix hparent) (List.cons_ne_nil _ _) hroute⟩,
    fun name hname => ?_, fun directory hdir => ?_, fun directory hfirst _ => ?_⟩
  · refine h.plain name ?_
    rw [segments_slash] at hname ⊢
    rw [hsegments]
    exact List.mem_append_left _ hname
  · exact h.there directory (hlineage ▸ List.mem_cons_of_mem _ hdir)
  · refine h.free directory ?_ ?_
    · rw [hlineage, List.find?_cons_of_neg (by simp [hlacks]), hfirst]
    · rintro rfl
      have hfound := List.find?_some hfirst
      simp [hlacks] at hfound

/-- A root is there. -/
theorem not_lacks_root (h : disk.Passable ('/' :: rest)) (hnone : segments rest = []) :
    disk.lacks ('/' :: rest) = false := by
  obtain ⟨route, hroute⟩ := h.accepted
  obtain ⟨hroot, hnames⟩ := ofText_slash rest
  obtain ⟨_, _, rfl⟩ := ofPath_eq_ok hroute
  refine h.there _ (mem_lineage_self _) ⟨_, root, hroute, ?_⟩
  rw [startOf, if_pos hroot, hnames, hnone, List.map_nil, walk]

/-- Where the parent is there, the name is vacant in it, and it may be changed. -/
theorem stands_parent {last : List Char} (h : disk.Passable ('/' :: rest))
    (hlacks : disk.lacks ('/' :: rest) = true)
    (hparent : directoryOf ('/' :: rest) = some ('/' :: more))
    (hsegments : segments rest = segments more ++ [last])
    (hplain : isPlainName (String.ofList last) = true)
    (hthere : disk.lacks ('/' :: more) = false) :
    ∃ id entries, disk.Stands ((segments more).map String.ofList) id entries ∧
      entries.get? (String.ofList last) = none := by
  obtain ⟨route, hroute⟩ := h.accepted
  obtain ⟨_, _, rfl⟩ := ofPath_eq_ok hroute
  have hlineage : lineage ('/' :: rest) = ('/' :: rest) :: lineage ('/' :: more) :=
    lineage_of_some hparent
  have hbegins := directoryOf_isPrefix hparent
  have haccepted := ofPath_of_isPrefix hbegins (List.cons_ne_nil _ _) hroute
  obtain ⟨id, hwalk, hdir⟩ := (lacks_eq_false_iff haccepted).1 hthere
  obtain ⟨entries, parent, hcontent⟩ := isDirectory_iff.1 hdir
  refine ⟨id, entries, ⟨hwalk, ⟨parent, hcontent⟩, ?_⟩, ?_⟩
  · refine h.free ('/' :: more) ?_ ?_ id ((locate_slash haccepted).2 ⟨hwalk, .inr hdir⟩)
    · have hfirst : lineage ('/' :: more) = ('/' :: more) :: (lineage ('/' :: more)).tail := by
        obtain ⟨behind, hbehind⟩ := exists_lineage ('/' :: more)
        rw [hbehind, List.tail_cons]
      rw [hlineage, List.find?_cons_of_neg (by simp [hlacks]), hfirst,
        List.find?_cons_of_pos (by simp [hthere])]
    · intro hsame
      have hshorter := directoryOf_length hparent
      rw [hsame] at hshorter
      exact Nat.lt_irrefl _ hshorter
  · -- what has the name would stand at the path, and be a directory
    cases hname : entries.get? (String.ofList last) with
    | none => rfl
    | some next =>
      obtain ⟨hroot, hnames⟩ := ofText_slash rest
      obtain ⟨left, hleft⟩ := walk_append hwalk
      have hhas : disk.Has ('/' :: rest) := by
        refine ⟨_, next, hroute, ?_⟩
        rw [startOf, if_pos hroot, hnames, hsegments, List.map_append, List.map_singleton,
          hleft _ _ (List.cons_ne_nil _ _), walk_keep_name hcontent hplain hname]
      rw [h.there _ (mem_lineage_self _) hhas] at hlacks
      cases hlacks

/-- The directories on the way that are missing are made. -/
theorem created (h : disk.Passable ('/' :: rest)) (hlacks : disk.lacks ('/' :: rest) = true)
    (hhere : disk.isDirectory disk.here = true) :
    ∃ later id, Server.createDirectories disk ((disk.missing ('/' :: rest)).map String.ofList)
        = (.ok (), later) ∧
      later.Stands ((segments rest).map String.ofList) id .empty := by
  induction hlength : rest.length using Nat.strongRecOn generalizing rest with
  | ind length ih =>
    obtain ⟨hnone, _⟩ | ⟨more, last, hparent, hsegments, _⟩ := directoryOf_absolute h.noDots
    · rw [h.not_lacks_root hnone] at hlacks
      cases hlacks
    · have hplain : isPlainName (String.ofList last) = true := by
        refine h.plain last ?_
        rw [segments_slash, hsegments]
        exact List.mem_append_right _ (List.mem_singleton_self last)
      -- the directory around the path is there, or it is made first
      obtain ⟨between, id, entries, hbetween, hstands, hvacant⟩ :
          ∃ between id entries, Server.createDirectories disk
              ((disk.missing ('/' :: more)).map String.ofList) = (.ok (), between) ∧
            between.Stands ((segments more).map String.ofList) id entries ∧
            entries.get? (String.ofList last) = none := by
        cases hthere : disk.lacks ('/' :: more) with
        | false =>
          obtain ⟨id, entries, hstands, hvacant⟩ :=
            h.stands_parent hlacks hparent hsegments hplain hthere
          refine ⟨disk, id, entries, ?_, hstands, hvacant⟩
          rw [missing_of_there hthere]
          rfl
        | true =>
          have hshorter := directoryOf_length hparent
          obtain ⟨between, id, hbetween, hstands⟩ := ih more.length
            (by simp only [List.length_cons] at hshorter; omega)
            (h.parent hlacks hparent hsegments) hthere rfl
          exact ⟨between, id, .empty, hbetween, hstands, Table.get?_empty _⟩
      obtain ⟨made, _, hadds, _⟩ :=
        Server.createDirectories_adds ((disk.missing ('/' :: more)).map String.ofList) hhere
      rw [hbetween] at hadds
      obtain ⟨route, hroute⟩ := h.accepted
      obtain ⟨hroot, hnames⟩ := ofText_slash rest
      obtain ⟨_, _, rfl⟩ := ofPath_eq_ok hroute
      rw [hsegments, List.map_append, List.map_singleton] at hnames
      obtain ⟨later, new, hmake, hnew⟩ :=
        hstands.createDirectory (hadds.grown.isDirectory_here hhere) hroute hroot hnames hplain
          hvacant
      refine ⟨later, new, ?_, ?_⟩
      · rw [missing_of_lacks hlacks hparent, List.map_append,
          Server.createDirectories_append _ hbetween, List.map_singleton,
          Server.createDirectories, hmake]
        rfl
      · rw [hsegments, List.map_append]
        exact hnew

/-- The directories around one that is there are there. -/
theorem there_around (hroute : Route.ofPath (String.ofList ('/' :: rest)) = .ok route)
    (hdots : ['.'] ∉ rest.splitOn '/') (hthere : disk.lacks ('/' :: rest) = false) :
    ∀ directory ∈ lineage ('/' :: rest), disk.lacks directory = false := by
  induction hlength : rest.length using Nat.strongRecOn generalizing rest route with
  | ind length ih =>
    intro directory hdir
    obtain ⟨_, hroot⟩ | ⟨more, last, hparent, hsegments, hmore⟩ := directoryOf_absolute hdots
    · rw [lineage_of_none hroot] at hdir
      rw [List.mem_singleton.1 hdir, hthere]
    · rw [lineage_of_some hparent] at hdir
      rcases List.mem_cons.1 hdir with rfl | hdir
      · exact hthere
      · have hbegins := directoryOf_isPrefix hparent
        have haccepted := ofPath_of_isPrefix hbegins (List.cons_ne_nil _ _) hroute
        have hshorter := directoryOf_length hparent
        -- the walk came past the parent, which has to be a directory for that
        obtain ⟨id, hwalk, _⟩ := (lacks_eq_false_iff hroute).1 hthere
        rw [hsegments, List.map_append, List.map_singleton] at hwalk
        obtain ⟨mid, hmid⟩ := of_walk_append (List.cons_ne_nil _ _) hwalk
        obtain ⟨left, hleft⟩ := walk_append hmid
        rw [hleft _ _ (List.cons_ne_nil _ _)] at hwalk
        have hmiddir := isDirectory_of_walk (List.cons_ne_nil _ _) hwalk
        exact ih more.length (by simp only [List.length_cons] at hshorter; omega) haccepted hmore
          ((lacks_eq_false_iff haccepted).2 ⟨mid, hmid, hmiddir⟩) rfl directory hdir

/-- The directories that are made are all that are missing. -/
theorem missing_eq (h : disk.Passable ('/' :: rest)) :
    disk.missing ('/' :: rest) = ((lineage ('/' :: rest)).filter disk.lacks).reverse := by
  induction hlength : rest.length using Nat.strongRecOn generalizing rest with
  | ind length ih =>
    cases hlacks : disk.lacks ('/' :: rest) with
    | false =>
      obtain ⟨route, hroute⟩ := h.accepted
      have hall := there_around hroute h.noDots hlacks
      rw [missing_of_there hlacks, List.filter_eq_nil_iff.2 fun directory hdir => by
        simp [hall directory hdir], List.reverse_nil]
    | true =>
      obtain ⟨hnone, _⟩ | ⟨more, last, hparent, hsegments, _⟩ := directoryOf_absolute h.noDots
      · rw [h.not_lacks_root hnone] at hlacks
        cases hlacks
      · have hshorter := directoryOf_length hparent
        rw [missing_of_lacks hlacks hparent, ih more.length
          (by simp only [List.length_cons] at hshorter; omega)
          (h.parent hlacks hparent hsegments) rfl, lineage_of_some hparent,
          List.filter_cons_of_pos hlacks, List.reverse_cons]
        rfl

end Passable

end Disk

namespace Server

variable {disk : Disk} {server : Server} {path : String} {uri : Uri}

/-! ## Making a directory -/

theorem createDirectory_of_resolve (hresolve : server.resolve path = .ok uri)
    (hfile : uri.isFile = true) :
    server.createDirectory disk path
      = createDirectories disk ((disk.missing uri.nativePath.toList).map String.ofList) := by
  rw [createDirectory, hresolve, Outcome.ok_bind, nativePath, if_pos hfile]
  dsimp only
  rw [missingDirectories_eq, List.append_nil]

/-- With all that was missing, the directory is there. -/
theorem directoryExists_of_adds {later : Disk} {path : String}
    (hhere : disk.isDirectory disk.here = true)
    (h : disk.Adds later ((disk.missing path.toList).map String.ofList)) :
    later.directoryExists path = true := by
  cases hlacks : disk.lacks path.toList with
  | false =>
    refine (h.grown.grown hhere).directoryExists ?_
    simpa [Disk.lacks] using hlacks
  | true =>
    obtain ⟨behind, hbehind⟩ := exists_lineage path.toList
    refine h.directoryExists (List.mem_map.2 ⟨path.toList, ?_, String.ofList_toList⟩)
    rw [Disk.missing, hbehind, List.takeWhile_cons, if_pos hlacks, List.mem_reverse]
    exact List.mem_cons_self

theorem createDirectories_of_passable {path : List Char} (h : disk.Passable path)
    (hhere : disk.isDirectory disk.here = true) :
    (createDirectories disk ((disk.missing path).map String.ofList)).1 = .ok () := by
  obtain ⟨rest, rfl⟩ := List.head?_eq_some_iff.1 h.absolute
  cases hlacks : disk.lacks ('/' :: rest) with
  | false =>
    rw [Disk.missing_of_there hlacks]
    rfl
  | true =>
    obtain ⟨later, _, hmade, _⟩ := h.created hlacks hhere
    rw [hmade]

/-- Making a directory adds directories on the way to it and changes nothing else. If it succeeds,
the directory is there, and is not made again. It succeeds, and adds all that is missing, where
the way is passable. -/
theorem createDirectory_lineage (hresolve : server.resolve path = .ok uri)
    (hfile : uri.isFile = true) (hhere : disk.isDirectory disk.here = true) :
    ∃ made, disk.Adds (server.createDirectory disk path).2 made ∧
      (∀ directory ∈ made, disk.directoryExists directory = false ∧
        directory.toList ∈ lineage uri.nativePath.toList ∧
        directory.toList <+: uri.nativePath.toList) ∧
      ((server.createDirectory disk path).1 = .ok () →
        (server.createDirectory disk path).2.directoryExists uri.nativePath = true ∧
        server.createDirectory (server.createDirectory disk path).2 path
          = (.ok (), (server.createDirectory disk path).2)) ∧
      (disk.Passable uri.nativePath.toList →
        (server.createDirectory disk path).1 = .ok () ∧
        made.map String.toList
          = ((lineage uri.nativePath.toList).filter disk.lacks).reverse) := by
  rw [createDirectory_of_resolve hresolve hfile]
  obtain ⟨made, hbegins, hadds, hall⟩ :=
    createDirectories_adds ((disk.missing uri.nativePath.toList).map String.ofList) hhere
  refine ⟨made, hadds, ?_, ?_, ?_⟩
  · intro directory hdir
    obtain ⟨text, htext, rfl⟩ := List.mem_map.1 (hbegins.subset hdir)
    rw [Disk.missing, List.mem_reverse] at htext
    have hlacks := List.all_eq_true.1 List.all_takeWhile text htext
    have hmem := (List.takeWhile_sublist _).subset htext
    rw [String.toList_ofList]
    exact ⟨by simpa [Disk.lacks] using hlacks, hmem, lineage_isPrefix hmem⟩
  · intro hok
    obtain rfl := hall hok
    have hthere := directoryExists_of_adds hhere hadds
    refine ⟨hthere, ?_⟩
    rw [createDirectory_of_resolve hresolve hfile]
    generalize (createDirectories disk ((disk.missing uri.nativePath.toList).map String.ofList)).2
      = later at hthere
    have hlacks : later.lacks uri.nativePath.toList = false := by
      rw [Disk.lacks, String.ofList_toList, hthere, Bool.not_true]
    rw [Disk.missing_of_there hlacks]
    rfl
  · intro hpassable
    have hok := createDirectories_of_passable hpassable hhere
    obtain ⟨rest, hrest⟩ : ∃ rest, uri.nativePath.toList = '/' :: rest :=
      List.head?_eq_some_iff.1 hpassable.absolute
    rw [hrest] at hpassable
    refine ⟨hok, ?_⟩
    rw [hall hok, List.map_map, hrest, ← hpassable.missing_eq]
    simp [Function.comp_def]

/-! ## In an empty root directory -/

/-- A disk with nothing but its root directory, which may be marked read-only. -/
def emptyDisk (marked : Bool) : Disk where
  nodes := #[{ content := .directory .empty Disk.root, readOnly := marked }]

theorem lineage_small : lineage ['/', 'a'] = [['/', 'a'], ['/']] := by
  have hparent : directoryOf ['/', 'a'] = some ['/'] := by decide
  have hroot : directoryOf ['/'] = none := by decide
  rw [lineage_of_some hparent, lineage_of_none hroot]
  rfl

theorem walk_emptyDisk (marked : Bool) (last : Disk.LastLink) :
    (emptyDisk marked).walk last Disk.maxLinks Disk.root ["a"]
      = .ok (.vacancy Disk.root "a") :=
  Disk.walk_vacant rfl (by decide) rfl

theorem not_lacks_emptyDisk (marked : Bool) : (emptyDisk marked).lacks ['/'] = false := by
  have hroute : Disk.Route.ofPath (String.ofList ['/'])
      = .ok { fromRoot := true, names := [], slashed := true } := by decide
  refine (Disk.lacks_eq_false_iff hroute).2 ⟨Disk.root, ?_, by cases marked <;> rfl⟩
  show (emptyDisk marked).walk .follow Disk.maxLinks Disk.root [] = _
  rw [Disk.walk]

theorem lacks_emptyDisk (marked : Bool) : (emptyDisk marked).lacks ['/', 'a'] = true := by
  have hroute : Disk.Route.ofPath (String.ofList ['/', 'a'])
      = .ok { fromRoot := true, names := ["a"], slashed := false } := by decide
  cases hlacks : (emptyDisk marked).lacks ['/', 'a'] with
  | true => rfl
  | false =>
    obtain ⟨id, hwalk, _⟩ := (Disk.lacks_eq_false_iff hroute).1 hlacks
    have hnames : (segments ['a']).map String.ofList = ["a"] := by decide
    rw [hnames, walk_emptyDisk] at hwalk
    cases hwalk

/-- Nothing but directories stands on the way. -/
theorem there_emptyDisk (marked : Bool) :
    ∀ directory ∈ lineage ['/', 'a'], (emptyDisk marked).Has directory →
      (emptyDisk marked).lacks directory = false := by
  rw [lineage_small]
  intro directory hdir hhas
  rcases List.mem_cons.1 hdir with rfl | hdir
  · have hroute : Disk.Route.ofPath (String.ofList ['/', 'a'])
        = .ok { fromRoot := true, names := ["a"], slashed := false } := by decide
    obtain ⟨route, id, haccepted, hwalk⟩ := hhas
    obtain rfl := Except.ok.inj (haccepted.symm.trans hroute)
    have hvacant := (walk_emptyDisk marked .keep).symm.trans hwalk
    cases hvacant
  · rw [List.mem_singleton.1 hdir]
    exact not_lacks_emptyDisk marked

theorem resolve_small_directory : smallServer.resolve "/a" = .ok (rootFile "/a") := by
  decide

theorem createDirectory_lineage_small :
    (emptyDisk false).Passable (rootFile "/a").nativePath.toList ∧
    (smallServer.createDirectory (emptyDisk false) "/a").1 = .ok () ∧
    (emptyDisk false).Adds (smallServer.createDirectory (emptyDisk false) "/a").2 ["/a"] := by
  have hpath : (rootFile "/a").nativePath.toList = ['/', 'a'] := by decide
  have hfirst : (lineage ['/', 'a']).find? (fun directory => !(emptyDisk false).lacks directory)
      = some ['/'] := by
    rw [lineage_small, List.find?_cons_of_neg (by simp [lacks_emptyDisk]),
      List.find?_cons_of_pos (by simp [not_lacks_emptyDisk])]
  have hpassable : (emptyDisk false).Passable (rootFile "/a").nativePath.toList := by
    rw [hpath]
    refine ⟨rfl, ⟨{ fromRoot := true, names := ["a"], slashed := false }, by decide⟩, by decide,
      there_emptyDisk false, fun directory hdir _ id _ => ?_⟩
    cases id with
    | zero => rfl
    | succ id => rfl
  have hhere : (emptyDisk false).isDirectory (emptyDisk false).here = true := rfl
  obtain ⟨made, hadds, _, _, hway⟩ := createDirectory_lineage resolve_small_directory rfl hhere
  obtain ⟨hok, hmade⟩ := hway hpassable
  refine ⟨hpassable, hok, ?_⟩
  rw [hpath, lineage_small, List.filter_cons_of_pos (lacks_emptyDisk false),
    List.filter_cons_of_neg (by simp [not_lacks_emptyDisk])] at hmade
  obtain rfl : made = ["/a"] := by
    have hback := congrArg (List.map String.ofList) hmade
    rw [List.map_map] at hback
    simpa [Function.comp_def] using hback
  exact hadds

/-- The way is there, and only the mark keeps the directory from being made. -/
theorem createDirectory_read_only :
    (rootFile "/a").nativePath.toList.head? = some '/' ∧
    (∀ name ∈ segments (rootFile "/a").nativePath.toList,
      Disk.isPlainName (String.ofList name) = true) ∧
    (∀ directory ∈ lineage (rootFile "/a").nativePath.toList, (emptyDisk true).Has directory →
      (emptyDisk true).lacks directory = false) ∧
    smallServer.createDirectory (emptyDisk true) "/a"
      = (.error (.disk .createDirectory "/a" .denied), emptyDisk true) := by
  have hpath : (rootFile "/a").nativePath.toList = ['/', 'a'] := by decide
  rw [hpath]
  refine ⟨rfl, by decide, there_emptyDisk true, ?_⟩
  have hparent : directoryOf ['/', 'a'] = some ['/'] := by decide
  have hroute : Disk.Route.ofPath (String.ofList ['/', 'a'])
      = .ok { fromRoot := true, names := ["a"], slashed := false } := by decide
  have hstart : (emptyDisk true).startOf { fromRoot := true, names := ["a"], slashed := false }
      (emptyDisk true).here = Disk.root := rfl
  have hrefused : (emptyDisk true).createDirectory (String.ofList ['/', 'a'])
      = .error (.disk .createDirectory "/a" .denied) := by
    rw [Disk.createDirectory, Disk.blame, hroute, Outcome.ok_bind, hstart, walk_emptyDisk,
      Outcome.ok_bind]
    rfl
  rw [createDirectory_of_resolve resolve_small_directory rfl, hpath,
    Disk.missing_of_lacks (lacks_emptyDisk true) hparent,
    Disk.missing_of_there (not_lacks_emptyDisk true), List.nil_append, List.map_singleton,
    createDirectories, hrefused]

end Server

end ArchiveVfs
