import ArchiveVfs.Proofs.Text.Cut
import ArchiveVfs.Proofs.Wildcard
import Mathlib.Data.List.Forall2

/-!
# One star to go back to

The stars of a pattern part it into segments. A name is in the pattern's language if it can
be cut, in any way at all, into pieces that the segments cover with anything between them
(`Cut`). The search goes back to the last star it has met and to no other one, and misses
no cut of a name without `*`: `lastStar_search`.

`Search` is a moment of the search and `turn` what it does next. A turn keeps what the
search will come to and lowers its rank (`Search.leads_turn`), so that the answer comes
within as many turns as the rank says (`Search.answerWithin_eq`), although the search goes
back in the name.
-/

namespace ArchiveVfs.Wildcard

open Text

/-! ## Cuts -/

/-- A segment covers a piece of its own length, character by character. -/
def Covers (segment piece : List Char) : Prop :=
  List.Forall₂ (fun p c => takes p c = true) segment piece

/-- The name can be cut into pieces for the segments, with anything between them. -/
inductive Cut : List (List Char) → List Char → Prop where
  /-- The last segment covers all that is left. -/
  | last {segment piece : List Char} (hcovers : Covers segment piece) : Cut [segment] piece
  /-- Behind the piece of a segment something is skipped. -/
  | more {segment piece : List Char} (skipped : List Char) {segments : List (List Char)}
      {rest : List Char} (hcovers : Covers segment piece) :
      Cut segments rest → Cut (segment :: segments) (piece ++ skipped ++ rest)

section Cuts

variable {p : Char} {pattern name first : List Char} {segments : List (List Char)}

theorem cut_empty_iff : Cut [[]] name ↔ name = [] := by
  constructor
  · intro h
    cases h with
    | last hcovers => exact List.forall₂_nil_left_iff.1 hcovers
    | more _ _ hrest => cases hrest
  · rintro rfl
    exact .last .nil

/-- An empty segment before others lets a front of the name go. -/
theorem cut_skip_iff (hsome : segments ≠ []) :
    Cut ([] :: segments) name ↔ ∃ rest, rest <:+ name ∧ Cut segments rest := by
  constructor
  · intro h
    cases h with
    | last => exact absurd rfl hsome
    | @more _ piece skipped _ rest hcovers hrest =>
      exact ⟨rest, List.suffix_append _ rest, hrest⟩
  · rintro ⟨rest, ⟨skipped, rfl⟩, hrest⟩
    exact .more skipped .nil hrest

/-- A character at the start of the first segment takes the first one of the name. -/
theorem cut_take_iff : Cut ((p :: first) :: segments) name ↔
    ∃ c tail, name = c :: tail ∧ takes p c = true ∧ Cut (first :: segments) tail := by
  constructor
  · intro h
    cases h with
    | last hcovers =>
      obtain ⟨c, tail, htakes, htail, rfl⟩ := List.forall₂_cons_left_iff.1 hcovers
      exact ⟨c, tail, rfl, htakes, .last htail⟩
    | more skipped hcovers hrest =>
      obtain ⟨c, tail, htakes, htail, rfl⟩ := List.forall₂_cons_left_iff.1 hcovers
      exact ⟨c, _, rfl, htakes, .more skipped htail hrest⟩
  · rintro ⟨c, tail, rfl, htakes, h⟩
    cases h with
    | last hcovers => exact .last (.cons htakes hcovers)
    | more skipped hcovers hrest => exact .more skipped (.cons htakes hcovers) hrest

theorem fits_nil_iff : Fits [] name ↔ name = [] := by
  constructor
  · intro h
    cases h
    rfl
  · rintro rfl
    exact .done

theorem fits_star_iff : Fits ('*' :: pattern) name ↔ ∃ rest, rest <:+ name ∧ Fits pattern rest := by
  constructor
  · intro h
    generalize hwhole : '*' :: pattern = whole at h
    induction h with
    | done => cases hwhole
    | one => cases hwhole
    | same c hstar => exact absurd (List.cons.inj hwhole).1.symm hstar
    | @stop _ name hfits _ =>
      obtain rfl := (List.cons.inj hwhole).2
      exact ⟨name, List.suffix_refl name, hfits⟩
    | more c _ ih =>
      obtain ⟨rest, hrest, hfits⟩ := ih hwhole
      exact ⟨rest, hrest.trans (List.suffix_cons c _), hfits⟩
  · rintro ⟨rest, hrest, hfits⟩
    exact hfits.run hrest

theorem fits_cons_iff (hp : p ≠ '*') : Fits (p :: pattern) name ↔
    ∃ c tail, name = c :: tail ∧ takes p c = true ∧ Fits pattern tail := by
  constructor
  · intro h
    cases h with
    | one c hfits => exact ⟨c, _, rfl, takes_iff.2 (.inl rfl), hfits⟩
    | same c _ _ hfits => exact ⟨_, _, rfl, takes_iff.2 (.inr rfl), hfits⟩
    | stop => exact absurd rfl hp
    | more => exact absurd rfl hp
  · rintro ⟨c, tail, rfl, htakes, hfits⟩
    by_cases hone : p = '?'
    · subst hone
      exact .one c hfits
    · obtain rfl := (takes_iff.1 htakes).resolve_left hone
      exact .same p hp hone hfits

/-- The pattern's language is told by the ways to cut a name for its segments. -/
theorem cut_splitOn_iff : Cut (pattern.splitOn '*') name ↔ Fits pattern name := by
  induction pattern generalizing name with
  | nil => exact cut_empty_iff.trans fits_nil_iff.symm
  | cons p pattern ih =>
    rw [splitOn_cons]
    by_cases hp : p = '*'
    · subst hp
      rw [if_pos rfl, cut_skip_iff (List.splitOn_ne_nil '*' pattern), fits_star_iff]
      simp only [ih]
    · rw [if_neg hp, fits_cons_iff hp]
      cases hpieces : pattern.splitOn '*' with
      | nil => exact absurd hpieces (List.splitOn_ne_nil '*' pattern)
      | cons first segments =>
        show Cut ((p :: first) :: segments) name ↔ _
        rw [cut_take_iff, ← hpieces]
        simp only [ih]

end Cuts

/-! ## The search, turn by turn -/

theorem length_within_self (chars : List Char) : chars.length ≤ chars.length :=
  Nat.le_refl _

theorem length_within_of_cons {c : Char} {chars whole : List Char}
    (h : (c :: chars).length ≤ whole.length) : chars.length ≤ whole.length :=
  Nat.le_of_succ_le h

/-- A moment of the search. -/
inductive Search where
  /-- No star has been met; what is left of the pattern and of the name. -/
  | before (pattern name : List Char)
  /-- The last star has `star` behind it and was tried last where `tried` begins. -/
  | behind (star tried pattern name : List Char) (inStar : pattern.length ≤ star.length)
      (inTried : name.length ≤ tried.length)

namespace Search

/-- Tries a star at a place in the name: what stands behind the star is to be read there. -/
def reach (star tried : List Char) : Search :=
  .behind star tried star tried (length_within_self star) (length_within_self tried)

/-- Lets the last star take one more character, if there is one. -/
def retry (star : List Char) : (tried : List Char) → Bool ⊕ Search
  | [] => .inl false
  | _ :: later => .inr (reach star later)

/-- The answer, or the next moment: a character is taken, a star is met, or the last star
is tried again. -/
def turn : Search → Bool ⊕ Search
  | before pattern [] => .inl (onlyStars pattern)
  | before [] (_ :: _) => .inl false
  | before (p :: pattern) (c :: name) =>
    if takes p c then .inr (.before pattern name)
    else if p = '*' then .inr (reach pattern (c :: name))
    else .inl false
  | behind _ _ pattern [] _ _ => .inl (onlyStars pattern)
  | behind star tried [] (_ :: _) _ _ => retry star tried
  | behind star tried (p :: pattern) (c :: name) inStar inTried =>
    if takes p c then
      .inr (.behind star tried pattern name (length_within_of_cons inStar)
        (length_within_of_cons inTried))
    else if p = '*' then .inr (reach pattern (c :: name))
    else retry star tried

/-- The answer after so many turns at most. -/
def answerWithin : Nat → Search → Option Bool
  | 0, _ => none
  | turns + 1, search =>
    match search.turn with
    | .inl answer => some answer
    | .inr next => next.answerWithin turns

/-- What matching says from here on. -/
def verdict : Search → Bool
  | before pattern name => acceptsChars pattern name
  | behind star tried pattern name inStar _ => acceptsAfter star tried pattern name inStar

/-- How much of the pattern the search may have to read again. -/
def width : Search → Nat
  | before pattern _ => pattern.length
  | behind star _ _ _ _ _ => star.length

/-- Going back in the pattern costs less than a place in the name at which a star was tried. -/
def rank (width : Nat) : Search → Nat
  | before pattern name => name.length * (width + 1) + pattern.length
  | behind _ tried pattern _ _ _ => tried.length * (width + 1) + pattern.length

/-- An answer is the verdict; another moment has the same verdict and a lower rank. -/
inductive Leads (bound : Nat) (search : Search) : Bool ⊕ Search → Prop where
  | answers {answer : Bool} (hverdict : answer = search.verdict) : Leads bound search (.inl answer)
  | goesOn {next : Search} (hverdict : next.verdict = search.verdict) (hwidth : next.width ≤ bound)
      (hrank : next.rank bound < search.rank bound) : Leads bound search (.inr next)

variable {bound : Nat} {star tried pattern name : List Char}

theorem acceptsChars_nil (pattern : List Char) : acceptsChars pattern [] = onlyStars pattern := by
  rw [acceptsChars]

theorem acceptsChars_cons (p c : Char) (pattern name : List Char) :
    acceptsChars (p :: pattern) (c :: name) =
      if takes p c then acceptsChars pattern name
      else if p = '*' then (reach pattern (c :: name)).verdict
      else false := by
  rw [acceptsChars]
  rfl

theorem acceptsAfter_nil (tried : List Char) (inStar : pattern.length ≤ star.length) :
    acceptsAfter star tried pattern [] inStar = onlyStars pattern := by
  rw [acceptsAfter]

/-- Where the pattern is used up before the name, the last star is tried again. -/
theorem acceptsAfter_used (tried : List Char) (c : Char) (name : List Char)
    (inStar : [].length ≤ star.length) :
    acceptsAfter star tried [] (c :: name) inStar = (retry star tried).elim id verdict := by
  cases tried with
  | nil => rw [acceptsAfter]; rfl
  | cons d later => rw [acceptsAfter]; rfl

theorem acceptsAfter_cons {p : Char} (tried : List Char) (c : Char) (name : List Char)
    (inStar : (p :: pattern).length ≤ star.length) :
    acceptsAfter star tried (p :: pattern) (c :: name) inStar =
      if takes p c then acceptsAfter star tried pattern name (length_within_of_cons inStar)
      else if p = '*' then (reach pattern (c :: name)).verdict
      else (retry star tried).elim id verdict := by
  cases tried with
  | nil => rw [acceptsAfter]; rfl
  | cons d later => rw [acceptsAfter]; rfl

/-- The last star has one place less to be tried at. -/
theorem leads_retry {inStar : pattern.length ≤ star.length} {inTried : name.length ≤ tried.length}
    (hwidth : star.length ≤ bound)
    (hverdict : (retry star tried).elim id verdict
      = acceptsAfter star tried pattern name inStar) :
    Leads bound (.behind star tried pattern name inStar inTried) (retry star tried) := by
  cases tried with
  | nil => exact .answers hverdict
  | cons c later =>
    refine .goesOn hverdict hwidth ?_
    show later.length * (bound + 1) + star.length
      < (later.length + 1) * (bound + 1) + pattern.length
    rw [Nat.succ_mul]
    omega

/-- A star that is met has no further place to be tried at than the one before it. -/
theorem leads_star {p c : Char} {inStar : (p :: pattern).length ≤ star.length}
    {inTried : (c :: name).length ≤ tried.length} (hwidth : star.length ≤ bound)
    (hverdict : (reach pattern (c :: name)).verdict
      = acceptsAfter star tried (p :: pattern) (c :: name) inStar) :
    Leads bound (.behind star tried (p :: pattern) (c :: name) inStar inTried)
      (.inr (reach pattern (c :: name))) := by
  refine .goesOn hverdict (Nat.le_trans (Nat.le_of_succ_le inStar) hwidth) ?_
  show (c :: name).length * (bound + 1) + pattern.length
    < tried.length * (bound + 1) + (pattern.length + 1)
  have hplaces := Nat.mul_le_mul_right (bound + 1) inTried
  omega

/-- A turn keeps the verdict: one case for each of the ways in which the search goes on. -/
theorem leads_turn (search : Search) (hwidth : search.width ≤ bound) :
    Leads bound search search.turn := by
  cases search with
  | before pattern name =>
    cases name with
    | nil =>
      rw [turn]
      exact .answers (acceptsChars_nil pattern).symm
    | cons c name =>
      cases pattern with
      | nil => exact .answers rfl
      | cons p pattern =>
        have hverdict := acceptsChars_cons p c pattern name
        rw [turn]
        by_cases htakes : takes p c = true
        · rw [if_pos htakes] at hverdict ⊢
          refine .goesOn hverdict.symm (Nat.le_of_succ_le hwidth) ?_
          show name.length * (bound + 1) + pattern.length
            < (name.length + 1) * (bound + 1) + (pattern.length + 1)
          rw [Nat.succ_mul]
          omega
        · rw [if_neg htakes] at hverdict ⊢
          by_cases hstar : p = '*'
          · rw [if_pos hstar] at hverdict ⊢
            exact .goesOn hverdict.symm (Nat.le_of_succ_le hwidth) (Nat.lt_succ_self _)
          · rw [if_neg hstar] at hverdict ⊢
            exact .answers hverdict.symm
  | behind star tried pattern name inStar inTried =>
    cases name with
    | nil =>
      rw [turn]
      exact .answers (acceptsAfter_nil tried inStar).symm
    | cons c name =>
      cases pattern with
      | nil =>
        rw [turn]
        exact leads_retry hwidth (acceptsAfter_used tried c name inStar).symm
      | cons p pattern =>
        have hverdict := acceptsAfter_cons tried c name inStar
        rw [turn]
        by_cases htakes : takes p c = true
        · rw [if_pos htakes] at hverdict ⊢
          exact .goesOn hverdict.symm hwidth (Nat.lt_succ_self _)
        · rw [if_neg htakes] at hverdict ⊢
          by_cases hstar : p = '*'
          · rw [if_pos hstar] at hverdict ⊢
            exact leads_star hwidth hverdict.symm
          · rw [if_neg hstar] at hverdict ⊢
            exact leads_retry hwidth hverdict.symm

/-- A search comes to its verdict within as many turns as its rank says, and one more. -/
theorem answerWithin_eq {search : Search} (hwidth : search.width ≤ bound) {turns : Nat}
    (hturns : search.rank bound < turns) : search.answerWithin turns = some search.verdict := by
  induction turns generalizing search with
  | zero => exact absurd hturns (Nat.not_lt_zero _)
  | succ turns ih =>
    have hleads := leads_turn search hwidth
    rw [answerWithin]
    cases hturn : search.turn with
    | inl answer =>
      rw [hturn] at hleads
      cases hleads with
      | answers hverdict => exact congrArg some hverdict
    | inr next =>
      rw [hturn] at hleads
      cases hleads with
      | goesOn hverdict hwidth hrank =>
        have hfewer : next.rank bound < turns := by omega
        exact (ih hwidth hfewer).trans (congrArg some hverdict)

/-- The search as it begins. -/
def start (pattern name : String) : Search :=
  .before pattern.toList name.toList

end Search

/-- The search always comes to an end, within as many turns as there are pairs of a place in the
name and a place in the pattern. It accepts no name that cannot be cut for the segments of the
pattern, and of the names without `*` it accepts all that can be cut in some way. -/
theorem lastStar_search (pattern name : String) :
    (∀ turns, (name.length + 1) * (pattern.length + 1) ≤ turns →
      (Search.start pattern name).answerWithin turns = some (accepts pattern name)) ∧
    (accepts pattern name = true → Cut (pattern.toList.splitOn '*') name.toList) ∧
    ('*' ∉ name.toList → Cut (pattern.toList.splitOn '*') name.toList →
      accepts pattern name = true) := by
  refine ⟨fun turns hturns => ?_, fun haccepts => ?_, fun hname hcut => ?_⟩
  · apply Search.answerWithin_eq (Nat.le_refl pattern.toList.length)
    show name.toList.length * (pattern.toList.length + 1) + pattern.toList.length < turns
    rw [String.length_toList, String.length_toList]
    rw [Nat.succ_mul] at hturns
    omega
  · exact cut_splitOn_iff.2 (acceptsChars_iff.1 haccepts).fits
  · exact acceptsChars_iff.2 ((cut_splitOn_iff.1 hcut).reads hname)

/-- The last star is tried at four places of the name before what follows it is found. -/
theorem lastStar_search_later :
    '*' ∉ "xaababac".toList ∧
    "*x*?bac".toList.splitOn '*' = ["".toList, "x".toList, "?bac".toList] ∧
    accepts "*x*?bac" "xaababac" = true ∧
    (Search.start "*x*?bac" "xaababac").answerWithin 72 = some true := by
  have hcut : Cut ("*x*?bac".toList.splitOn '*') "xaababac".toList := by
    show Cut [[], ['x'], ['?', 'b', 'a', 'c']]
      ([] ++ [] ++ (['x'] ++ ['a', 'a', 'b'] ++ ['a', 'b', 'a', 'c']))
    have hfirst : Covers ['x'] ['x'] := .cons rfl .nil
    have hlast : Covers ['?', 'b', 'a', 'c'] ['a', 'b', 'a', 'c'] :=
      .cons rfl (.cons rfl (.cons rfl (.cons rfl .nil)))
    exact .more [] .nil (.more ['a', 'a', 'b'] hfirst (.last hlast))
  have haccepts := (lastStar_search "*x*?bac" "xaababac").2.2 (by decide) hcut
  refine ⟨by decide, by decide, haccepts, ?_⟩
  rw [(lastStar_search _ _).1 72 (by decide), haccepts]

end ArchiveVfs.Wildcard
