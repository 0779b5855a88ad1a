import Mathlib.Data.List.DropRight
import ArchiveVfs.Text.Cut

/-!
# Pieces and separators

Pieces hold no separator, and what is put together with separators is made of them and of the
pieces. A text is cut where its two parts were put together, at the first separator
if the first part holds none and at the last one if the second part holds none. What is
dropped at the end of a text is a run of one character, and no more of it is left.
-/

namespace ArchiveVfs.Text

variable {α : Type} {sep : α}

/-- What is put together holds separators and what the pieces hold. -/
theorem of_mem_intercalate {parts : List (List α)} {x : α} (h : x ∈ [sep].intercalate parts) :
    x = sep ∨ ∃ part ∈ parts, x ∈ part := by
  cases parts with
  | nil => cases h
  | cons part parts =>
    rw [intercalate_cons] at h
    rcases List.mem_append.1 h with hpart | hbehind
    · exact .inr ⟨part, List.mem_cons_self, hpart⟩
    · obtain ⟨other, hin, hx⟩ := List.mem_flatMap.1 hbehind
      exact (List.mem_cons.1 hx).imp id fun hx => ⟨other, List.mem_cons_of_mem _ hin, hx⟩

variable [DecidableEq α]

/-- Behind a separator begins a piece, and any other character goes on with one. -/
theorem splitOn_cons (x : α) (xs : List α) : (x :: xs).splitOn sep =
    if x = sep then [] :: xs.splitOn sep else (xs.splitOn sep).modifyHead (x :: ·) := by
  rw [List.splitOn_cons_eq_if_modifyHead]
  simp only [beq_iff_eq]

/-- No piece holds the separator, and every piece is made of the text. -/
theorem of_mem_splitOn {xs piece : List α} (h : piece ∈ xs.splitOn sep) :
    sep ∉ piece ∧ ∀ x ∈ piece, x ∈ xs := by
  induction xs generalizing piece with
  | nil =>
    rw [List.splitOn_nil] at h
    obtain rfl := List.mem_singleton.1 h
    simp
  | cons x xs ih =>
    rw [splitOn_cons] at h
    split at h
    · rcases List.mem_cons.1 h with rfl | h
      · simp
      · exact ⟨(ih h).1, fun y hy => List.mem_cons_of_mem _ ((ih h).2 y hy)⟩
    next hx =>
      obtain ⟨first, rest, hpieces⟩ :=
        List.exists_cons_of_ne_nil (List.splitOn_ne_nil sep xs)
      rw [hpieces] at h ih
      rcases List.mem_cons.1 h with rfl | h
      · obtain ⟨hsep, hall⟩ := ih List.mem_cons_self
        constructor
        · simp [hsep, Ne.symm hx]
        · intro y hy
          rcases List.mem_cons.1 hy with rfl | hy
          · exact List.mem_cons_self
          · exact List.mem_cons_of_mem _ (hall y hy)
      · obtain ⟨hsep, hall⟩ := ih (List.mem_cons_of_mem _ h)
        exact ⟨hsep, fun y hy => List.mem_cons_of_mem _ (hall y hy)⟩

/-- A piece behind the first is empty only between two separators or behind the last one. -/
theorem of_nil_mem_tail_splitOn {xs : List α} (h : [] ∈ (xs.splitOn sep).tail) :
    xs.getLast? = some sep ∨ [sep, sep] <:+: xs := by
  induction xs with
  | nil => cases h
  | cons x xs ih =>
    have hlater : [] ∈ (xs.splitOn sep).tail →
        (x :: xs).getLast? = some sep ∨ [sep, sep] <:+: x :: xs := by
      intro hin
      rcases ih hin with hlast | hinner
      · exact .inl (by rw [List.getLast?_cons, hlast, Option.getD_some])
      · exact .inr (List.infix_cons hinner)
    rw [splitOn_cons] at h
    split at h
    next hx =>
      subst hx
      cases xs with
      | nil => exact .inl rfl
      | cons y ys =>
        by_cases hy : y = x
        · exact .inr (hy ▸ (List.prefix_append [x, y] ys).isInfix)
        · -- the piece behind the separator begins with the next character
          refine hlater ?_
          rw [List.tail_cons, splitOn_cons, if_neg hy] at h
          rw [splitOn_cons, if_neg hy]
          obtain ⟨piece, rest, hpieces⟩ := List.exists_cons_of_ne_nil (List.splitOn_ne_nil x ys)
          simpa [hpieces] using h
    next hx =>
      refine hlater ?_
      obtain ⟨piece, rest, hpieces⟩ := List.exists_cons_of_ne_nil (List.splitOn_ne_nil sep xs)
      simpa [hpieces] using h

/-- What does not begin with a character is left as it is. -/
theorem dropLeading_eq_self {x : α} {xs : List α} (h : xs.head? ≠ some x) :
    dropLeading x xs = xs := by
  cases xs with
  | nil => rfl
  | cons y ys =>
    rw [dropLeading, List.dropWhile_cons_of_neg]
    simpa using h

/-- A text is cut at the first separator. -/
theorem cutFirst_append {before after : List α} (h : sep ∉ before) :
    cutFirst sep (before ++ sep :: after) = some (before, after) := by
  induction before with
  | nil => exact if_pos rfl
  | cons x before ih =>
    have hx : x ≠ sep := fun heq => h (heq ▸ List.mem_cons_self)
    have hrest : sep ∉ before := fun hin => h (List.mem_cons_of_mem _ hin)
    rw [List.cons_append, cutFirst, if_neg hx, ih hrest]
    rfl

/-- A text is cut at the last separator. -/
theorem cutLast_append {before after : List α} (h : sep ∉ after) :
    cutLast sep (before ++ sep :: after) = some (before, after) := by
  induction before with
  | nil => rw [List.nil_append, cutLast, cutLast_eq_none.2 h, if_pos rfl]
  | cons x before ih => rw [List.cons_append, cutLast, ih]

/-! ## Runs at the end -/

theorem dropTrailing_eq_rdropWhile (x : α) (xs : List α) :
    dropTrailing x xs = xs.rdropWhile (· = x) := rfl

/-- What was dropped at the end is a run. -/
theorem exists_dropTrailing (x : α) (xs : List α) :
    ∃ count, xs = dropTrailing x xs ++ List.replicate count x := by
  have hrun : xs.rtakeWhile (· = x) = List.replicate (xs.rtakeWhile (· = x)).length x := by
    refine List.eq_replicate_iff.2 ⟨rfl, fun y hy => ?_⟩
    have hmem := List.mem_rtakeWhile_imp hy
    exact of_decide_eq_true hmem
  refine ⟨(xs.rtakeWhile (· = x)).length, ?_⟩
  rw [dropTrailing_eq_rdropWhile, ← hrun, List.rdropWhile_append_rtakeWhile]

/-- No run is left at the end. -/
theorem getLast?_dropTrailing (x : α) (xs : List α) :
    (dropTrailing x xs).getLast? ≠ some x := by
  intro h
  rw [dropTrailing_eq_rdropWhile] at h
  have hsome : xs.rdropWhile (· = x) ≠ [] := fun hnil => by rw [hnil] at h; cases h
  rw [List.getLast?_eq_some_getLast hsome] at h
  exact List.rdropWhile_last_not _ xs hsome (decide_eq_true (Option.some.inj h))

/-- Without a run at the end nothing is dropped. -/
theorem dropTrailing_eq_self {x : α} {xs : List α} (h : xs.getLast? ≠ some x) :
    dropTrailing x xs = xs := by
  refine List.rdropWhile_eq_self_iff.2 fun hsome hlast => h ?_
  rw [List.getLast?_eq_some_getLast hsome, of_decide_eq_true hlast]

/-- A second part that is a run is dropped with the run before it. -/
theorem dropTrailing_append_of_nil {x : α} {front back : List α} (h : dropTrailing x back = []) :
    dropTrailing x (front ++ back) = dropTrailing x front := by
  have hrun : back.reverse.dropWhile (· = x) = [] := List.reverse_eq_nil_iff.1 h
  rw [dropTrailing, List.reverse_append, List.dropWhile_append, hrun]
  rfl

/-- A second part that is no run keeps the first one whole. -/
theorem dropTrailing_append_of_ne_nil {x : α} {front back : List α}
    (h : dropTrailing x back ≠ []) :
    dropTrailing x (front ++ back) = front ++ dropTrailing x back := by
  have hrun : (back.reverse.dropWhile (· = x)).isEmpty = false :=
    List.isEmpty_eq_false_iff.2 fun hnil => h (List.reverse_eq_nil_iff.2 hnil)
  rw [dropTrailing, List.reverse_append, List.dropWhile_append, hrun]
  simp [dropTrailing]

end ArchiveVfs.Text
