/-!
# Cutting text at separators

Paths, queries and authorities are cut at single characters: `cutFirst` and
`cutLast` split at the first and at the last separator, `List.splitOn` at every one.
-/

namespace ArchiveVfs.Text

variable {α : Type} {sep : α}

/-- Every piece behind the first stands behind a separator. -/
theorem intercalate_cons (piece : List α) (rest : List (List α)) :
    [sep].intercalate (piece :: rest) = piece ++ rest.flatMap (sep :: ·) := by
  induction rest generalizing piece with
  | nil => rw [List.intercalate_singleton, List.flatMap_nil, List.append_nil]
  | cons next rest ih =>
    rw [List.intercalate_cons_cons, ih, List.flatMap_cons, List.append_assoc, List.singleton_append,
      List.cons_append]

/-- Pieces put behind others stand behind a separator. -/
theorem intercalate_append {parts parts' : List (List α)} (hsome : parts ≠ [])
    (hsome' : parts' ≠ []) :
    [sep].intercalate (parts ++ parts')
      = [sep].intercalate parts ++ sep :: [sep].intercalate parts' := by
  obtain ⟨first, others, rfl⟩ := List.exists_cons_of_ne_nil hsome
  obtain ⟨next, more, rfl⟩ := List.exists_cons_of_ne_nil hsome'
  rw [List.cons_append, intercalate_cons, intercalate_cons, intercalate_cons, List.flatMap_append,
    List.flatMap_cons, List.append_assoc, List.cons_append]

variable [DecidableEq α]

/-- The parts before and after the first `sep`. -/
def cutFirst (sep : α) : List α → Option (List α × List α)
  | [] => none
  | x :: xs =>
    if x = sep then some ([], xs)
    else (cutFirst sep xs).map fun parts => (x :: parts.1, parts.2)

/-- The parts before and after the last `sep`. -/
def cutLast (sep : α) : List α → Option (List α × List α)
  | [] => none
  | x :: xs =>
    match cutLast sep xs with
    | some parts => some (x :: parts.1, parts.2)
    | none => if x = sep then some ([], xs) else none

/-- The text without the run of `x` at its start. -/
def dropLeading (x : α) (xs : List α) : List α :=
  xs.dropWhile (· = x)

/-- The text without the run of `x` at its end: the `List.rdropWhile` of the library, for a
character. -/
def dropTrailing (x : α) (xs : List α) : List α :=
  (xs.reverse.dropWhile (· = x)).reverse

/-- What `cutFirst` returns is the text around a separator, none before it. -/
theorem cutFirst_eq_some {sep : α} {xs before after : List α}
    (h : cutFirst sep xs = some (before, after)) :
    xs = before ++ sep :: after ∧ sep ∉ before := by
  induction xs generalizing before with
  | nil => simp [cutFirst] at h
  | cons x xs ih =>
    unfold cutFirst at h
    split at h
    next hx => simp_all
    next hx =>
      obtain ⟨parts, hparts, heq⟩ := Option.map_eq_some_iff.1 h
      obtain ⟨rfl, rfl⟩ := Prod.mk.injEq .. ▸ heq
      obtain ⟨hxs, hnot⟩ := ih hparts
      constructor
      · rw [hxs]; rfl
      · simp [hnot, Ne.symm hx]

/-- Exactly a text without the separator cannot be cut. -/
theorem cutFirst_eq_none {sep : α} {xs : List α} :
    cutFirst sep xs = none ↔ sep ∉ xs := by
  induction xs with
  | nil => simp [cutFirst]
  | cons x xs ih =>
    unfold cutFirst
    split
    next h => simp [h]
    next h => simp [ih, Ne.symm h]

/-- Exactly a text without the separator cannot be cut. -/
theorem cutLast_eq_none {sep : α} {xs : List α} :
    cutLast sep xs = none ↔ sep ∉ xs := by
  induction xs with
  | nil => simp [cutLast]
  | cons x xs ih =>
    unfold cutLast
    cases hcut : cutLast sep xs with
    | some parts =>
      have hmem : sep ∈ xs := Decidable.byContradiction fun hnot => by
        rw [ih.2 hnot] at hcut
        cases hcut
      simp [hmem]
    | none =>
      have hnot := ih.1 hcut
      by_cases hx : x = sep
      · simp [hx]
      · simp [hx, hnot, Ne.symm hx]

/-- What `cutLast` returns is the text around a separator, none after it. -/
theorem cutLast_eq_some {sep : α} {xs before after : List α}
    (h : cutLast sep xs = some (before, after)) :
    xs = before ++ sep :: after ∧ sep ∉ after := by
  induction xs generalizing before with
  | nil => simp [cutLast] at h
  | cons x xs ih =>
    unfold cutLast at h
    cases hcut : cutLast sep xs with
    | some parts =>
      rw [hcut] at h
      obtain ⟨rfl, rfl⟩ := Prod.mk.injEq .. ▸ Option.some.inj h
      obtain ⟨hxs, hnot⟩ := ih hcut
      exact ⟨by rw [hxs]; rfl, hnot⟩
    | none =>
      rw [hcut] at h
      by_cases hx : x = sep
      · rw [if_pos hx] at h
        obtain ⟨rfl, rfl⟩ := Prod.mk.injEq .. ▸ Option.some.inj h
        exact ⟨by rw [hx]; rfl, cutLast_eq_none.1 hcut⟩
      · rw [if_neg hx] at h
        cases h

end ArchiveVfs.Text
