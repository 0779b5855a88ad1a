import ArchiveVfs.Archive.Basic
import ArchiveVfs.Proofs.Archive.EntryPath
import ArchiveVfs.Proofs.Archive.Load

/-!
# Local paths and paths inside an archive

One place has many spellings: empty names and `.` lead nowhere, so that a spelling leads
along the names that are left (`LocalPath.names`). The path inside an archive depends on
these names alone (`innerPath_names`), but whether there is one depends on the spelling:
its text has to go on behind the text of the mount point (`innerPath_isSome_iff`). Two
spellings of one place therefore never lead to different places inside an archive, but one
of them may be taken for a place outside (`innerPath_eq_iff`). Plain spellings are found
where any other is (`innerPath_of_plain`).
-/

namespace ArchiveVfs

open Text

/-! ## Spellings -/

namespace LocalPath

variable {path front back : List Char}

/-- The names that a path leads along. -/
def names (path : List Char) : List (List Char) :=
  (path.splitOn '/').filter EntryPath.isName

/-- The plain spelling of a way from the root. -/
def spell (way : List (List Char)) : List Char :=
  way.flatMap fun name => '/' :: name

/-- A path in its plain spelling: a slash before each name and nothing else. -/
def IsPlain (path : List Char) : Prop :=
  path = spell (names path)

instance (path : List Char) : Decidable (IsPlain path) :=
  inferInstanceAs (Decidable (_ = _))

theorem names_append (front back : List Char) :
    names (front ++ '/' :: back) = names front ++ names back := by
  rw [names, List.splitOn_append_cons_self, List.filter_append]
  rfl

theorem names_slash (path : List Char) : names (path ++ ['/']) = names path := by
  rw [names_append]
  exact List.append_nil _

theorem names_slashes (path : List Char) (count : Nat) :
    names (path ++ List.replicate count '/') = names path := by
  induction count with
  | zero => rw [List.replicate_zero, List.append_nil]
  | succ count ih => rw [List.replicate_succ', ← List.append_assoc, names_slash, ih]

theorem names_dropTrailing (path : List Char) : names (dropTrailing '/' path) = names path := by
  obtain ⟨count, hpath⟩ := exists_dropTrailing '/' path
  rw [← names_slashes _ count, ← hpath]

theorem spell_append (way rest : List (List Char)) :
    spell (way ++ rest) = spell way ++ spell rest :=
  List.flatMap_append

/-- A plain spelling of a way is empty or goes on with a slash. -/
theorem head?_spell (way : List (List Char)) : spell way = [] ∨ (spell way).head? = some '/' := by
  cases way with
  | nil => exact .inl rfl
  | cons name way => exact .inr rfl

end LocalPath

open LocalPath

/-! ## Segments and names -/

namespace EntryPath

theorem segments_append (front back : List Char) :
    segments (front ++ '/' :: back) = segments front ++ segments back := by
  rw [segments, List.map_append, List.map_cons]
  show ((front.map slash ++ '/' :: back.map slash).splitOn '/').filter isName = _
  rw [List.splitOn_append_cons_self, List.filter_append]
  rfl

/-- What names nothing has no segments. -/
theorem segments_of_not_isName {piece : List Char} (h : isName piece = false) :
    segments piece = [] := by
  have hcases : piece = [] ∨ piece = ['.'] := by
    simp only [isName, Bool.and_eq_false_iff, Bool.not_eq_false', List.isEmpty_iff,
      decide_eq_false_iff_not, Decidable.not_not] at h
    exact h
  rcases hcases with rfl | rfl
  · rfl
  · decide

/-- The segments of a path are those of its names, one after the other. -/
theorem segments_eq (path : List Char) : segments path = (names path).flatMap segments := by
  have hjoin (parts : List (List Char)) (hsome : parts ≠ []) :
      segments (['/'].intercalate parts) = (parts.filter isName).flatMap segments := by
    induction parts with
    | nil => exact absurd rfl hsome
    | cons part rest ih =>
      have hfirst : ((part :: rest).filter isName).flatMap segments
          = segments part ++ (rest.filter isName).flatMap segments := by
        cases hname : isName part with
        | true => rw [List.filter_cons_of_pos hname, List.flatMap_cons]
        | false =>
          rw [List.filter_cons_of_neg (by simp [hname]), segments_of_not_isName hname]
          rfl
      rw [hfirst]
      cases rest with
      | nil => rw [List.intercalate_singleton, List.filter_nil, List.flatMap_nil, List.append_nil]
      | cons next others =>
        rw [List.intercalate_cons_cons, List.append_assoc, List.singleton_append, segments_append,
          ih (List.cons_ne_nil _ _)]
  have hpath := hjoin _ (List.splitOn_ne_nil '/' path)
  rw [List.intercalate_splitOn] at hpath
  exact hpath

end EntryPath

namespace Archive

variable {archive : Archive} {path other inner : String}

/-! ## Which path is inside -/

theorem dropPart_append {α : Type} [DecidableEq α] (part rest : List α) :
    dropPart part (part ++ rest) = some rest := by
  have hbegins : part.isPrefixOf (part ++ rest) = true :=
    List.isPrefixOf_iff_prefix.2 (List.prefix_append _ _)
  rw [dropPart, if_pos hbegins, List.drop_left]

theorem dropPart_eq_some {α : Type} [DecidableEq α] {part whole rest : List α} :
    dropPart part whole = some rest ↔ whole = part ++ rest := by
  constructor
  · intro h
    rw [dropPart] at h
    split at h
    next hbegins =>
      obtain ⟨back, rfl⟩ := List.isPrefixOf_iff_prefix.1 hbegins
      rw [List.drop_left] at h
      rw [Option.some.inj h]
    next => cases h
  · rintro rfl
    exact dropPart_append part rest

/-- The mount point itself is the empty path inside. -/
theorem innerPath_here (h : dropTrailing '/' path.toList = archive.mountPoint.toList) :
    archive.innerPath path = some "" := by
  simp only [innerPath, h, if_true]

/-- What follows the mount point and a slash is the path inside. -/
theorem innerPath_behind {rest : List Char}
    (h : dropTrailing '/' path.toList = archive.mountPoint.toList ++ '/' :: rest) :
    archive.innerPath path = some (String.ofList (EntryPath.normalChars rest)) := by
  have hne : archive.mountPoint.toList ++ '/' :: rest ≠ archive.mountPoint.toList := by simp
  simp only [innerPath, h, if_neg hne, dropPart_append]

/-- All that a path that leads inside can be. -/
theorem innerPath_cases (h : archive.innerPath path = some inner) :
    (dropTrailing '/' path.toList = archive.mountPoint.toList ∧ inner = "") ∨
    ∃ rest, dropTrailing '/' path.toList = archive.mountPoint.toList ++ '/' :: rest ∧
      inner = String.ofList (EntryPath.normalChars rest) := by
  rw [innerPath] at h
  split at h
  next hhere => exact .inl ⟨hhere, (Option.some.inj h).symm⟩
  next =>
    split at h
    next rest hdrop =>
      exact .inr ⟨rest, dropPart_eq_some.1 hdrop, (Option.some.inj h).symm⟩
    next => cases h

/-- A path inside lies along the names of the mount point, and is made of the names behind
these. -/
theorem innerPath_names (h : archive.innerPath path = some inner) :
    ∃ rest, names path.toList = names archive.mountPoint.toList ++ rest ∧
      inner = EntryPath.ofParts (rest.flatMap EntryPath.segments) := by
  rcases innerPath_cases h with ⟨hhere, rfl⟩ | ⟨rest, hbehind, rfl⟩
  · refine ⟨[], ?_, rfl⟩
    rw [← names_dropTrailing, hhere, List.append_nil]
  · refine ⟨names rest, ?_, ?_⟩
    · rw [← names_dropTrailing, hbehind, names_append]
    · rw [← EntryPath.segments_eq]
      rfl

/-- Where two spellings of one place both lead inside, they lead to the same path. -/
theorem innerPath_unique {inner' : String} (hnames : names path.toList = names other.toList)
    (h : archive.innerPath path = some inner) (h' : archive.innerPath other = some inner') :
    inner = inner' := by
  obtain ⟨rest, hrest, rfl⟩ := innerPath_names h
  obtain ⟨rest', hrest', rfl⟩ := innerPath_names h'
  rw [hnames, hrest'] at hrest
  rw [List.append_cancel_left hrest]

/-! ## Whether a path is inside -/

/-- The text of the path goes on where the text of the mount point ends: it ends there too, or
has a slash there. -/
def Below (archive : Archive) (path : String) : Prop :=
  ∃ rest, path.toList = archive.mountPoint.toList ++ rest ∧ (rest = [] ∨ rest.head? = some '/')

/-- The mount point has no slash at its end. -/
def IsTrimmed (archive : Archive) : Prop :=
  archive.mountPoint.toList.getLast? ≠ some '/'

theorem isTrimmed_of_load {disk : Disk} {maps : Bool} {uri mountPoint : Uri}
    (h : load disk maps uri mountPoint = .ok archive) : archive.IsTrimmed := by
  obtain ⟨_, _, _, _, _, _, _, hpoint⟩ := load_eq_ok h
  rw [IsTrimmed, hpoint, String.toList_ofList]
  exact getLast?_dropTrailing '/' _

/-- A path leads inside exactly if its text goes on behind the mount point. -/
theorem innerPath_isSome_iff (htrimmed : archive.IsTrimmed) :
    (archive.innerPath path).isSome = true ↔ archive.Below path := by
  rw [Option.isSome_iff_exists]
  constructor
  · rintro ⟨inner, h⟩
    obtain ⟨count, hpath⟩ := exists_dropTrailing '/' path.toList
    rcases innerPath_cases h with ⟨hhere, _⟩ | ⟨rest, hbehind, _⟩
    · refine ⟨List.replicate count '/', by rw [← hhere, ← hpath], ?_⟩
      cases count with
      | zero => exact .inl rfl
      | succ count => exact .inr rfl
    · refine ⟨'/' :: rest ++ List.replicate count '/', ?_, .inr rfl⟩
      rw [← List.append_assoc, ← hbehind, ← hpath]
  · rintro ⟨rest, hpath, hrest⟩
    by_cases hslashes : dropTrailing '/' rest = []
    · -- only slashes follow, so the path is the mount point
      refine ⟨"", innerPath_here ?_⟩
      rw [hpath, dropTrailing_append_of_nil hslashes, dropTrailing_eq_self htrimmed]
    · obtain ⟨count, hwhole⟩ := exists_dropTrailing '/' rest
      have hhead : (dropTrailing '/' rest).head? = some '/' := by
        rcases hrest with rfl | hrest
        · exact absurd rfl hslashes
        · obtain ⟨c, back, hback⟩ := List.exists_cons_of_ne_nil hslashes
          rw [hwhole, hback] at hrest
          rw [hback]
          exact hrest
      obtain ⟨back, hback⟩ := List.head?_eq_some_iff.1 hhead
      have hbehind : dropTrailing '/' path.toList = archive.mountPoint.toList ++ '/' :: back := by
        rw [hpath, dropTrailing_append_of_ne_nil hslashes, hback]
      exact ⟨_, innerPath_behind hbehind⟩

/-- A path that goes on behind the mount point leads to what the names behind it make. -/
theorem innerPath_of_below (htrimmed : archive.IsTrimmed) (hbelow : archive.Below path)
    {rest : List (List Char)}
    (hnames : names path.toList = names archive.mountPoint.toList ++ rest) :
    archive.innerPath path = some (EntryPath.ofParts (rest.flatMap EntryPath.segments)) := by
  obtain ⟨found, hfound⟩ := Option.isSome_iff_exists.1 ((innerPath_isSome_iff htrimmed).2 hbelow)
  obtain ⟨more, hmore, rfl⟩ := innerPath_names hfound
  rw [hnames] at hmore
  rw [hfound, List.append_cancel_left hmore]

/-- Two spellings of one place lead to the same path inside or outside exactly if both of
them, or neither, go on behind the mount point. -/
theorem innerPath_eq_iff (htrimmed : archive.IsTrimmed)
    (hnames : names path.toList = names other.toList) :
    archive.innerPath path = archive.innerPath other ↔
      (archive.Below path ↔ archive.Below other) := by
  rw [← innerPath_isSome_iff htrimmed, ← innerPath_isSome_iff htrimmed]
  constructor
  · intro heq
    rw [heq]
  · intro hsame
    cases hpath : archive.innerPath path with
    | none =>
      cases hother : archive.innerPath other with
      | none => rfl
      | some inner =>
        rw [hpath, hother] at hsame
        exact absurd (hsame.2 rfl) Bool.false_ne_true
    | some inner =>
      cases hother : archive.innerPath other with
      | none =>
        rw [hpath, hother] at hsame
        exact absurd (hsame.1 rfl) Bool.false_ne_true
      | some inner' => rw [innerPath_unique hnames hpath hother]

/-- Below a plain mount point, the plain spelling of a place leads where any other spelling of
it does. -/
theorem innerPath_of_plain (htrimmed : archive.IsTrimmed)
    (hpoint : IsPlain archive.mountPoint.toList) (hplain : IsPlain path.toList)
    (hnames : names path.toList = names other.toList) (h : archive.innerPath other = some inner) :
    archive.innerPath path = some inner := by
  obtain ⟨rest, hrest, rfl⟩ := innerPath_names h
  have hbelow : archive.Below path := by
    refine ⟨spell rest, ?_, head?_spell rest⟩
    rw [hplain, hnames, hrest, spell_append, ← hpoint]
  exact innerPath_of_below htrimmed hbelow (hnames.trans hrest)

end Archive

end ArchiveVfs
