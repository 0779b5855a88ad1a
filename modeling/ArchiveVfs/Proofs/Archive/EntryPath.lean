import ArchiveVfs.Archive.EntryPath
import ArchiveVfs.Proofs.Text.Cut

/-!
# Normal paths

A normal path is its own normal form (`normal_normal`): its segments hold neither kind
of slash and all name something. A path is the directory it is in and its last segment
(`split_within`), and is made of its segments in one way only (`ofParts_inj`).
-/

namespace ArchiveVfs.EntryPath

open Text

variable {name segment : List Char}

theorem slash_ne_backslash (c : Char) : slash c ≠ '\\' := by
  rw [slash]
  split
  · decide
  · assumption

theorem isName_iff : isName segment = true ↔ segment ≠ [] ∧ segment ≠ ['.'] := by
  simp [isName]

theorem slash_of_ne {c : Char} (h : c ≠ '\\') : slash c = c :=
  if_neg h

/-- Segments name something and hold no slash of either kind. -/
theorem of_mem_segments (h : segment ∈ segments name) :
    isName segment = true ∧ '/' ∉ segment ∧ '\\' ∉ segment := by
  obtain ⟨hpiece, hname⟩ := List.mem_filter.1 h
  obtain ⟨hslash, hall⟩ := of_mem_splitOn hpiece
  refine ⟨hname, hslash, ?_⟩
  intro hin
  obtain ⟨c, _, hc⟩ := List.mem_map.1 (hall _ hin)
  exact slash_ne_backslash c hc

theorem map_slash_eq_self_iff : name.map slash = name ↔ '\\' ∉ name := by
  constructor
  · intro hsame hin
    obtain ⟨c, _, hc⟩ := List.mem_map.1 (hsame ▸ hin)
    exact slash_ne_backslash c hc
  · intro hnot
    rw [List.map_congr_left fun c hin => slash_of_ne fun heq => hnot (heq ▸ hin), List.map_id']

/-- What is joined of segments without backslashes has none. -/
theorem slash_intercalate {parts : List (List Char)} (h : ∀ part ∈ parts, '\\' ∉ part) :
    (['/'].intercalate parts).map slash = ['/'].intercalate parts := by
  refine map_slash_eq_self_iff.2 fun hin => ?_
  rcases of_mem_intercalate hin with heq | ⟨part, hpart, hbackslash⟩
  · cases heq
  · exact h part hpart hbackslash

/-- What is joined of segments has these segments. -/
theorem segments_intercalate {parts : List (List Char)}
    (h : ∀ part ∈ parts, isName part = true ∧ '/' ∉ part ∧ '\\' ∉ part) :
    segments (['/'].intercalate parts) = parts := by
  have hkeep : parts.filter isName = parts := List.filter_eq_self.2 fun part hin => (h part hin).1
  rw [segments, slash_intercalate fun part hin => (h part hin).2.2]
  -- without segments the path is empty, and has one empty piece
  by_cases hnone : parts = []
  · rw [hnone]
    rfl
  · rw [List.splitOn_intercalate '/' (fun part hin => (h part hin).2.1) hnone, hkeep]

/-- The segments of a normal path are those it was joined of. -/
theorem segments_normalChars (name : List Char) :
    segments (normalChars name) = segments name :=
  segments_intercalate fun _ hin => of_mem_segments hin

theorem normalChars_normalChars (name : List Char) :
    normalChars (normalChars name) = normalChars name := by
  rw [normalChars, segments_normalChars]
  rfl

theorem normal_normal (name : String) : normal (normal name) = normal name := by
  rw [normal, normal, String.toList_ofList, normalChars_normalChars]

/-! ## Directories and what is in them -/

/-- A name that can stand in a directory. -/
def IsPart (name : String) : Prop :=
  name ≠ "" ∧ '/' ∉ name.toList

theorem IsPart.toList_ne_nil {name : String} (h : IsPart name) : name.toList ≠ [] :=
  fun hnil => h.1 (String.toList_eq_nil_iff.1 hnil)

/-- The path of what has a name in a directory. -/
def within (directory name : String) : String :=
  if directory = "" then name else directory ++ "/" ++ name

variable {directory directory' name name' path : String}

theorem toList_within (h : directory ≠ "") :
    (within directory name).toList = directory.toList ++ '/' :: name.toList := by
  rw [within, if_neg h]
  simp

theorem split_within (hname : IsPart name) : split (within directory name) = (directory, name) := by
  by_cases hroot : directory = ""
  · rw [within, if_pos hroot, split, cutLast_eq_none.2 hname.2, hroot]
  · rw [split, toList_within hroot, cutLast_append hname.2]
    simp only [String.ofList_toList]

theorem within_inj (hname : IsPart name) (hname' : IsPart name')
    (h : within directory name = within directory' name') :
    directory = directory' ∧ name = name' := by
  have hsplit := congrArg split h
  rw [split_within hname, split_within hname'] at hsplit
  exact Prod.mk.inj hsplit

theorem within_ne_empty (hname : IsPart name) : within directory name ≠ "" := by
  by_cases hroot : directory = ""
  · rw [within, if_pos hroot]
    exact hname.1
  · intro h
    have hnil := congrArg String.toList h
    rw [toList_within hroot] at hnil
    exact List.append_ne_nil_of_right_ne_nil _ (List.cons_ne_nil _ _) hnil

/-! ## Paths as lists of segments -/

/-- The path with these segments. -/
def ofParts (parts : List (List Char)) : String :=
  String.ofList (['/'].intercalate parts)

/-- None of the segments is empty or holds a slash. -/
def AreParts (parts : List (List Char)) : Prop :=
  ∀ part ∈ parts, part ≠ [] ∧ '/' ∉ part

variable {parts parts' : List (List Char)} {part : List Char}

theorem areParts_segments (name : List Char) : AreParts (segments name) := by
  intro segment hin
  obtain ⟨hname, hslash, _⟩ := of_mem_segments hin
  refine ⟨?_, hslash⟩
  rintro rfl
  cases hname

theorem normal_eq (name : String) : normal name = ofParts (segments name.toList) := rfl

theorem AreParts.append (h : AreParts (parts ++ parts')) : AreParts parts ∧ AreParts parts' :=
  ⟨fun part hin => h part (List.mem_append_left _ hin),
    fun part hin => h part (List.mem_append_right _ hin)⟩

theorem AreParts.isPart (h : AreParts (parts ++ [part])) : IsPart (String.ofList part) := by
  obtain ⟨hnil, hslash⟩ := h part (by simp)
  rw [IsPart, String.toList_ofList]
  refine ⟨fun hempty => hnil ?_, hslash⟩
  rw [← String.toList_ofList (l := part), hempty]
  rfl

theorem ofParts_nil : ofParts [] = "" := rfl

theorem ofParts_eq_empty (h : AreParts parts) : ofParts parts = "" ↔ parts = [] := by
  constructor
  · intro hempty
    cases parts with
    | nil => rfl
    | cons part rest =>
      have hjoin : ['/'].intercalate (part :: rest) = [] := by
        rw [← String.toList_ofList (l := ['/'].intercalate (part :: rest))]
        exact congrArg String.toList hempty
      rw [intercalate_cons] at hjoin
      exact absurd (List.append_eq_nil_iff.1 hjoin).1 (h part List.mem_cons_self).1
  · rintro rfl
    rfl

theorem ofParts_inj (h : AreParts parts) (h' : AreParts parts')
    (heq : ofParts parts = ofParts parts') : parts = parts' := by
  by_cases hnil : parts = []
  · have hempty : ofParts parts' = "" := heq.symm.trans ((ofParts_eq_empty h).2 hnil)
    rw [hnil, (ofParts_eq_empty h').1 hempty]
  · have hnil' : parts' ≠ [] := fun hparts =>
      hnil ((ofParts_eq_empty h).1 (heq.trans ((ofParts_eq_empty h').2 hparts)))
    rw [← List.splitOn_intercalate '/' (fun part hin => (h part hin).2) hnil,
      ← List.splitOn_intercalate '/' (fun part hin => (h' part hin).2) hnil']
    exact congrArg (List.splitOn '/') (String.ofList_injective heq)

/-- Two paths with a slash between them, or the other one where one of them is empty. -/
def joined (front back : String) : String :=
  if front = "" then back else if back = "" then front else front ++ "/" ++ back

/-- The path with the segments of two paths is these two, joined. -/
theorem ofParts_joined (h : AreParts parts) (h' : AreParts parts') :
    ofParts (parts ++ parts') = joined (ofParts parts) (ofParts parts') := by
  simp only [joined, ofParts_eq_empty h, ofParts_eq_empty h']
  by_cases hnil : parts = []
  · rw [if_pos hnil, hnil, List.nil_append]
  by_cases hnil' : parts' = []
  · rw [if_neg hnil, if_pos hnil', hnil', List.append_nil]
  · rw [if_neg hnil, if_neg hnil', ofParts, intercalate_append hnil hnil']
    simp [ofParts, String.ofList_append, String.ofList_cons, String.append_assoc]

theorem within_eq_joined (hname : name ≠ "") : within directory name = joined directory name := by
  rw [within, joined, if_neg hname]

theorem ofParts_append (h : AreParts (parts ++ [part])) :
    ofParts (parts ++ [part]) = within (ofParts parts) (String.ofList part) := by
  have hpart : ofParts [part] = String.ofList part := by rw [ofParts, List.intercalate_singleton]
  rw [within_eq_joined h.isPart.1, ofParts_joined h.append.1 h.append.2, hpart]

/-! ## Directories around a path -/

/-- The directory is around what has the name, by whole segments. -/
def Encloses (directory name : String) : Prop :=
  ∃ front back, segments name.toList = front ++ back ∧ back ≠ [] ∧ directory = ofParts front

/-- Some of the first segments make the normal path itself or a directory around it. -/
theorem exists_front_iff : (∃ front, front <+: segments name.toList ∧ directory = ofParts front) ↔
    normal name = directory ∨ Encloses directory name := by
  constructor
  · rintro ⟨front, ⟨back, hwhole⟩, rfl⟩
    by_cases hback : back = []
    · rw [hback, List.append_nil] at hwhole
      exact .inl (by rw [hwhole, normal_eq])
    · exact .inr ⟨front, back, hwhole.symm, hback, rfl⟩
  · rintro (rfl | ⟨front, back, hwhole, _, rfl⟩)
    · exact ⟨_, List.prefix_refl _, normal_eq name⟩
    · exact ⟨front, ⟨back, hwhole.symm⟩, rfl⟩

/-- The directories around a path are made of the segments before the last one. -/
theorem encloses_iff (h : segments name.toList = parts ++ [part]) :
    Encloses directory name ↔ ∃ front, front <+: parts ∧ directory = ofParts front := by
  constructor
  · rintro ⟨front, back, hwhole, hback, rfl⟩
    obtain ⟨middle, last, rfl⟩ := List.eq_nil_or_concat back |>.resolve_left hback
    rw [h, List.concat_eq_append, ← List.append_assoc] at hwhole
    exact ⟨front, ⟨middle, (List.append_inj_left' hwhole rfl).symm⟩, rfl⟩
  · rintro ⟨front, ⟨middle, rfl⟩, rfl⟩
    exact ⟨front, middle ++ [part], by rw [h, List.append_assoc], by simp, rfl⟩

theorem not_encloses_unnamed (h : normal name = "") : ¬ Encloses directory name := by
  rintro ⟨front, back, hwhole, hback, _⟩
  rw [normal_eq, ofParts_eq_empty (areParts_segments _)] at h
  rw [h] at hwhole
  exact hback (List.append_eq_nil_iff.1 hwhole.symm).2

end ArchiveVfs.EntryPath
