import ArchiveVfs.Proofs.Text.Cut
import ArchiveVfs.Uri.NativePath

/-!
# Lexical ancestors

The directories around a path, as its text says them: each is a beginning of the text. Of a path
from the root without segments `.`, each has one name less than the one before, up to the root
(`directoryOf_absolute`).
-/

namespace ArchiveVfs.NativePath

open Text

variable {path directory rest : List Char}

/-- A path and the directories around it, the innermost first. -/
def lineage (path : List Char) : List (List Char) :=
  match h : directoryOf path with
  | none => [path]
  | some directory =>
    if directory.isEmpty then [path]
    else
      have := directoryOf_length h
      path :: lineage directory
termination_by path.length

theorem lineage_of_none (h : directoryOf path = none) : lineage path = [path] := by
  rw [lineage]
  split
  · rfl
  · rename_i hsome
    rw [h] at hsome
    cases hsome

theorem lineage_of_some (h : directoryOf path = some directory) :
    lineage path = path :: if directory.isEmpty then [] else lineage directory := by
  rw [lineage]
  split
  · rename_i hnone
    rw [h] at hnone
    cases hnone
  · rename_i other hother
    obtain rfl : directory = other := Option.some.inj (h.symm.trans hother)
    split <;> rfl

/-- A path is the first of its lineage. -/
theorem exists_lineage (path : List Char) : ∃ behind, lineage path = path :: behind := by
  cases h : directoryOf path with
  | none => exact ⟨_, lineage_of_none h⟩
  | some directory => exact ⟨_, lineage_of_some h⟩

theorem mem_lineage_self (path : List Char) : path ∈ lineage path := by
  obtain ⟨behind, hbehind⟩ := exists_lineage path
  rw [hbehind]
  exact List.mem_cons_self

/-! ## Beginnings of the text -/

theorem headOf_isPrefix (path : List Char) : headOf path <+: path := by
  rw [headOf, isAbsolute]
  split
  · rename_i habsolute
    cases path with
    | nil => simp at habsolute
    | cons c rest =>
      obtain rfl : c = '/' := by simpa using habsolute
      exact ⟨rest, rfl⟩
  · split
    · rename_i hdot
      simp only [Bool.or_eq_true, decide_eq_true_eq] at hdot
      rcases hdot with rfl | hslash
      · exact List.prefix_rfl
      · exact List.IsPrefix.trans ⟨['/'], rfl⟩ (List.isPrefixOf_iff_prefix.1 hslash)
    · exact List.nil_prefix

theorem intercalate_isPrefix {first whole : List (List Char)} (h : first <+: whole) :
    ['/'].intercalate first <+: ['/'].intercalate whole := by
  obtain ⟨rest, rfl⟩ := h
  cases first with
  | nil => exact List.nil_prefix
  | cons piece more =>
    rw [List.cons_append, intercalate_cons, intercalate_cons, List.flatMap_append,
      ← List.append_assoc]
    exact List.prefix_append _ _

/-- The parent of a path is a beginning of it. -/
theorem directoryOf_isPrefix (h : directoryOf path = some directory) : directory <+: path := by
  have hpath := List.prefix_iff_eq_append.1 (headOf_isPrefix path)
  rw [directoryOf] at h
  split at h
  · split at h
    · obtain rfl := Option.some.inj h
      exact List.nil_prefix
    · cases h
  · obtain rfl := Option.some.inj h
    have hsegments : trimIdle (trimIdle ((path.drop (headOf path).length).splitOn '/')).dropLast
        <+: (path.drop (headOf path).length).splitOn '/' :=
      ((trimIdle_isPrefix _).trans (List.dropLast_prefix _)).trans (trimIdle_isPrefix _)
    have hjoined := intercalate_isPrefix hsegments
    rw [List.intercalate_splitOn] at hjoined
    have hwhole := (List.prefix_append_right_inj (headOf path)).2 hjoined
    rwa [hpath] at hwhole

theorem lineage_isPrefix (h : directory ∈ lineage path) : directory <+: path := by
  fun_induction lineage path with
  | case1 path hnone =>
    obtain rfl := List.mem_singleton.1 h
    exact List.prefix_rfl
  | case2 path parent hparent hempty =>
    obtain rfl := List.mem_singleton.1 h
    exact List.prefix_rfl
  | case3 path parent hparent hsome _ ih =>
    rcases List.mem_cons.1 h with rfl | h
    · exact List.prefix_rfl
    · exact (ih h).trans (directoryOf_isPrefix hparent)

/-! ## Paths from the root -/

/-- The segments of a path between slashes. -/
def segments (path : List Char) : List (List Char) :=
  (path.splitOn '/').filter fun segment => !segment.isEmpty

theorem segments_slash (rest : List Char) : segments ('/' :: rest) = segments rest := by
  rw [segments, splitOn_cons, if_pos rfl]
  rfl

theorem segments_append (front back : List Char) :
    segments (front ++ '/' :: back) = segments front ++ segments back := by
  rw [segments, List.splitOn_append_cons_self, List.filter_append]
  rfl

theorem segments_name {name : List Char} (hsome : name ≠ []) (hslash : '/' ∉ name) :
    segments name = [name] := by
  rw [segments, List.splitOn_eq_singleton hslash]
  simp [hsome]

/-- What is trimmed names nothing, and what is left ends with a name. -/
theorem trimIdle_append (parts : List (List Char)) :
    ∃ idle, trimIdle parts ++ idle = parts ∧ (∀ part ∈ idle, isIdle part = true) ∧
      ∀ part, (trimIdle parts).getLast? = some part → isIdle part = false := by
  refine ⟨(parts.reverse.takeWhile isIdle).reverse, ?_, ?_, ?_⟩
  · rw [trimIdle, ← List.reverse_append, List.takeWhile_append_dropWhile, List.reverse_reverse]
  · intro part hpart
    exact List.all_eq_true.1 List.all_takeWhile part (List.mem_reverse.1 hpart)
  · intro part hlast
    rw [trimIdle, List.getLast?_reverse] at hlast
    have := List.head?_dropWhile_not isIdle parts.reverse
    rw [hlast] at this
    simpa using this

theorem filter_trimIdle {parts : List (List Char)} (hdots : ['.'] ∉ parts) :
    (trimIdle parts).filter (fun segment => !segment.isEmpty)
      = parts.filter fun segment => !segment.isEmpty := by
  obtain ⟨idle, hwhole, hidle, _⟩ := trimIdle_append parts
  have hnone : idle.filter (fun segment => !segment.isEmpty) = [] := by
    rw [List.filter_eq_nil_iff]
    intro part hpart
    have hnothing := hidle part hpart
    have hdot : part ≠ ['.'] := by
      rintro rfl
      exact hdots (hwhole ▸ List.mem_append_right _ hpart)
    simpa [isIdle, hdot] using hnothing
  have hfilter := congrArg (List.filter fun segment => !segment.isEmpty) hwhole
  rwa [List.filter_append, hnone, List.append_nil] at hfilter

theorem segments_intercalate {parts : List (List Char)} (h : ∀ part ∈ parts, '/' ∉ part) :
    segments (['/'].intercalate parts) = parts.filter fun segment => !segment.isEmpty := by
  cases parts with
  | nil => rfl
  | cons first others => rw [segments, List.splitOn_intercalate '/' h (List.cons_ne_nil _ _)]

theorem mem_splitOn_intercalate {parts : List (List Char)} (h : ∀ part ∈ parts, '/' ∉ part)
    {part : List Char} (hpart : part ∈ (['/'].intercalate parts).splitOn '/') :
    part ∈ parts ∨ part = [] := by
  cases parts with
  | nil => exact .inr (List.mem_singleton.1 hpart)
  | cons first others =>
    rw [List.splitOn_intercalate '/' h (List.cons_ne_nil _ _)] at hpart
    exact .inl hpart

theorem directoryOf_slash (rest : List Char) :
    directoryOf ('/' :: rest) = match trimIdle (rest.splitOn '/') with
      | [] => none
      | segments => some ('/' :: ['/'].intercalate (trimIdle segments.dropLast)) := by
  have hhead : headOf ('/' :: rest) = ['/'] := rfl
  rw [directoryOf, hhead]
  cases h : trimIdle (rest.splitOn '/') <;> simp [h]

/-- The parent of a path from the root has one segment less; a root has no parent. -/
theorem directoryOf_absolute (hdots : ['.'] ∉ rest.splitOn '/') :
    (segments rest = [] ∧ directoryOf ('/' :: rest) = none) ∨
      ∃ more last, directoryOf ('/' :: rest) = some ('/' :: more) ∧
        segments rest = segments more ++ [last] ∧ ['.'] ∉ more.splitOn '/' := by
  have hfilter := filter_trimIdle hdots
  rcases List.eq_nil_or_concat (trimIdle (rest.splitOn '/')) with htrim | ⟨front, last, htrim⟩
  · rw [htrim] at hfilter
    exact .inl ⟨hfilter.symm, by rw [directoryOf_slash, htrim]⟩
  · rw [List.concat_eq_append] at htrim
    have hparent :
        directoryOf ('/' :: rest) = some ('/' :: ['/'].intercalate (trimIdle front)) := by
      rw [directoryOf_slash, htrim]
      split
      · simp at *
      · rw [List.dropLast_concat]
    -- all segments come from the text, so none holds a slash or is a lone dot
    have hfront : front <+: rest.splitOn '/' :=
      (List.prefix_append front [last]).trans (htrim ▸ trimIdle_isPrefix (rest.splitOn '/'))
    have hsub : trimIdle front ⊆ rest.splitOn '/' :=
      ((trimIdle_isPrefix front).trans hfront).subset
    have hslash : ∀ part ∈ trimIdle front, '/' ∉ part :=
      fun part hpart => (of_mem_splitOn (hsub hpart)).1
    have hname : last.isEmpty = false := by
      obtain ⟨_, _, _, hends⟩ := trimIdle_append (rest.splitOn '/')
      have hlast := hends last (by rw [htrim, List.getLast?_concat])
      exact (Bool.or_eq_false_iff.1 hlast).1
    refine .inr ⟨['/'].intercalate (trimIdle front), last, hparent, ?_, ?_⟩
    · rw [segments_intercalate hslash, filter_trimIdle fun hdot => hdots (hfront.subset hdot),
        segments,
        ← hfilter, htrim, List.filter_append]
      simp [hname]
    · intro hdot
      rcases mem_splitOn_intercalate hslash hdot with hdot | hnone
      · exact hdots (hsub hdot)
      · cases hnone

end ArchiveVfs.NativePath
