import ArchiveVfs.Wildcard
import Mathlib.Data.List.Infix

/-!
# What matching accepts

`accepts` keeps the last star only, and takes a character of the name that equals the
pattern's before it reads that as a star. `Reads` is the language it decides
(`acceptsChars_iff`): as `Fits`, but a star that is met at a `*` of the name takes this one
character and is used up. So what is accepted fits, names without `*` are accepted exactly
if they fit, and other names may be refused.
-/

namespace ArchiveVfs.Wildcard

variable {p c : Char} {pattern name star tried rest : List Char}

/-- The name is in the language of the pattern, read so that a star of the pattern that
meets a star of the name stands for it and for nothing else. -/
inductive Reads : List Char → List Char → Prop where
  /-- The empty pattern has the empty name. -/
  | done : Reads [] []
  /-- A character is taken by itself or by a question mark. -/
  | one {p c : Char} {pattern name : List Char} (htakes : takes p c = true) :
      Reads pattern name → Reads (p :: pattern) (c :: name)
  /-- A star takes all before some rest, unless it is met at a star. -/
  | run {pattern name rest : List Char} (hrest : rest <:+ name)
      (hhead : name.head? ≠ some '*') : Reads pattern rest → Reads ('*' :: pattern) name

/-- The pattern has some rest of the name. -/
def ReadsRest (pattern name : List Char) : Prop :=
  ∃ rest, rest <:+ name ∧ Reads pattern rest

theorem takes_iff : takes p c = true ↔ p = '?' ∨ p = c := by
  simp [takes]

/-! ## One character of the pattern -/

theorem reads_nil_iff : Reads pattern [] ↔ onlyStars pattern = true := by
  induction pattern with
  | nil => exact ⟨fun _ => rfl, fun _ => .done⟩
  | cons p pattern ih =>
    constructor
    · intro h
      cases h with
      | run hrest _ hread =>
        obtain rfl := List.suffix_nil.1 hrest
        exact ih.1 hread
    · intro h
      obtain ⟨hp, hstars⟩ := Bool.and_eq_true_iff.1 (List.all_cons.symm.trans h)
      obtain rfl : p = '*' := of_decide_eq_true hp
      exact .run (List.suffix_refl []) nofun (ih.2 hstars)

theorem not_reads_nil : ¬ Reads [] (c :: name) :=
  nofun

/-- Where the character is taken there is no choice: a star that takes it stands at one. -/
theorem reads_cons_of_takes (htakes : takes p c = true) :
    Reads (p :: pattern) (c :: name) ↔ Reads pattern name := by
  constructor
  · intro h
    cases h with
    | one _ hread => exact hread
    | run hrest hhead hread =>
      rcases takes_iff.1 htakes with hp | rfl
      · cases hp
      · exact absurd rfl hhead
  · exact .one htakes

theorem not_reads_cons (htakes : ¬ takes p c = true) (hstar : p ≠ '*') :
    ¬ Reads (p :: pattern) (c :: name) := by
  intro h
  cases h with
  | one htaken _ => exact htakes htaken
  | run => exact hstar rfl

/-- A rest is the whole name or a rest of what follows its first character. -/
theorem readsRest_iff :
    ReadsRest pattern name ↔ Reads pattern name ∨ ReadsRest pattern name.tail := by
  constructor
  · rintro ⟨rest, hrest, hread⟩
    cases name with
    | nil =>
      obtain rfl := List.suffix_nil.1 hrest
      exact .inl hread
    | cons c name =>
      rcases List.suffix_cons_iff.1 hrest with rfl | hsuffix
      · exact .inl hread
      · exact .inr ⟨rest, hsuffix, hread⟩
  · rintro (hread | ⟨rest, hrest, hread⟩)
    · exact ⟨name, List.suffix_refl name, hread⟩
    · exact ⟨rest, hrest.trans (List.tail_suffix name), hread⟩

/-- What a star and its pattern have in a rest, the pattern has in a smaller one. -/
theorem ReadsRest.behind_star (h : ReadsRest ('*' :: pattern) name) : ReadsRest pattern name := by
  obtain ⟨rest, hrest, hread⟩ := h
  cases hread with
  | one _ hread => exact ⟨_, (List.suffix_cons _ _).trans hrest, hread⟩
  | run hleft _ hread => exact ⟨_, hleft.trans hrest, hread⟩

theorem reads_star_iff (hc : c ≠ '*') :
    Reads ('*' :: pattern) (c :: name) ↔ ReadsRest pattern (c :: name) := by
  constructor
  · exact fun h => ReadsRest.behind_star ⟨_, List.suffix_refl _, h⟩
  · rintro ⟨rest, hrest, hread⟩
    refine .run hrest ?_ hread
    rw [List.head?_cons]
    exact fun heq => hc (Option.some.inj heq)

/-! ## The last star -/

/-- The pattern behind a star, read over the name from where the star was tried, has come
to `pattern` and `name`, one character for one. -/
inductive Comes (star tried : List Char) : List Char → List Char → Prop where
  | start : Comes star tried star tried
  | next {p c : Char} {pattern name : List Char} (htakes : takes p c = true) :
      Comes star tried (p :: pattern) (c :: name) → Comes star tried pattern name

theorem Comes.suffix (h : Comes star tried pattern name) : name <:+ tried := by
  induction h with
  | start => exact List.suffix_refl tried
  | next _ _ ih => exact (List.suffix_cons _ _).trans ih

/-- From a later start a character of the pattern is passed later, too. -/
theorem ReadsRest.behind_taken (htakes : takes p c = true)
    (h : ReadsRest (p :: pattern) (c :: name)) : ReadsRest pattern name := by
  obtain ⟨rest, hrest, hread⟩ := h
  cases hread with
  | @one _ first _ later _ hread =>
    refine ⟨later, ?_, hread⟩
    rcases List.suffix_cons_iff.1 hrest with heq | hsuffix
    · exact (List.cons.inj heq).2 ▸ List.suffix_refl later
    · exact (List.suffix_cons first later).trans hsuffix
  | @run _ _ left hleft hhead hread =>
    refine ⟨left, ?_, hread⟩
    rcases List.suffix_cons_iff.1 hrest with rfl | hsuffix
    · -- at the same place the star meets a star, and cannot run
      rcases takes_iff.1 htakes with hp | rfl
      · cases hp
      · exact absurd rfl hhead
    · exact hleft.trans hsuffix

/-- What is read from a later start can be read from where the first start has come to. -/
theorem Comes.behind (h : Comes star tried pattern name) (hread : ReadsRest star tried) :
    ReadsRest pattern name := by
  induction h with
  | start => exact hread
  | next htakes _ ih => exact ih.behind_taken htakes

/-- Behind a star the name is read from where the search stands, or the star takes more.
No star before this one has to be tried again: a star that is reached absorbs whatever an
earlier one could have taken instead. -/
theorem acceptsAfter_iff (inStar : pattern.length ≤ star.length)
    (hcomes : Comes star tried pattern name) :
    acceptsAfter star tried pattern name inStar = true ↔
      Reads pattern name ∨ ReadsRest star tried.tail := by
  fun_induction acceptsAfter star tried pattern name inStar with
  | case1 star tried pattern =>
    -- the name is used up, and a star that had taken more would leave stars here, too
    rw [reads_nil_iff]
    refine (or_iff_left_of_imp fun hread => ?_).symm
    have hrest : ReadsRest pattern [] := hcomes.behind (readsRest_iff.2 (.inr hread))
    obtain ⟨rest, hsuffix, hread⟩ := hrest
    obtain rfl := List.suffix_nil.1 hsuffix
    exact reads_nil_iff.1 hread
  | case2 => exact absurd (List.suffix_nil.1 hcomes.suffix) (List.cons_ne_nil _ _)
  | case3 _ _ _ _ _ _ _ ih =>
    -- the pattern is used up too early
    rw [ih .start, ← readsRest_iff, or_iff_right not_reads_nil, List.tail_cons]
  | case4 _ _ _ _ _ _ _ htakes _ ih =>
    rw [ih (.next htakes hcomes), reads_cons_of_takes htakes]
  | case5 star tried pattern c name _ htakes _ ih =>
    -- the next star has whatever the last one could have left for it
    have hc : c ≠ '*' := fun heq => htakes (takes_iff.2 (.inr heq.symm))
    rw [ih .start, ← readsRest_iff, reads_star_iff hc]
    refine (or_iff_left_of_imp fun hread => ?_).symm
    exact (hcomes.behind (readsRest_iff.2 (.inr hread))).behind_star
  | case6 => exact absurd (List.suffix_nil.1 hcomes.suffix) (List.cons_ne_nil _ _)
  | case7 _ _ _ _ _ _ htakes hstar _ _ _ ih =>
    -- the character is not taken here
    rw [ih .start, ← readsRest_iff, or_iff_right (not_reads_cons htakes hstar), List.tail_cons]

/-- Matching decides the language of the pattern as `Reads` has it. -/
theorem acceptsChars_iff : acceptsChars pattern name = true ↔ Reads pattern name := by
  fun_induction acceptsChars pattern name with
  | case1 pattern => exact reads_nil_iff.symm
  | case2 => exact ⟨nofun, fun h => absurd h not_reads_nil⟩
  | case3 p pattern c name htakes ih => rw [ih, reads_cons_of_takes htakes]
  | case4 pattern c name htakes =>
    have hc : c ≠ '*' := fun heq => htakes (takes_iff.2 (.inr heq.symm))
    rw [acceptsAfter_iff _ .start, ← readsRest_iff, reads_star_iff hc]
  | case5 p pattern c name htakes hstar =>
    exact ⟨nofun, fun h => absurd h (not_reads_cons htakes hstar)⟩

/-! ## The language of a pattern -/

theorem Fits.run (hrest : rest <:+ name) (h : Fits pattern rest) : Fits ('*' :: pattern) name := by
  obtain ⟨taken, rfl⟩ := hrest
  induction taken with
  | nil => exact .stop h
  | cons c taken ih => exact .more c ih

theorem Reads.fits (h : Reads pattern name) : Fits pattern name := by
  induction h with
  | done => exact .done
  | @one p c _ _ htakes _ ih =>
    rcases takes_iff.1 htakes with rfl | rfl
    · exact .one c ih
    · by_cases hstar : p = '*'
      · rw [hstar]
        exact .more '*' (.stop ih)
      · by_cases hone : p = '?'
        · rw [hone]
          exact .one '?' ih
        · exact .same p hstar hone ih
  | run hrest _ _ ih => exact ih.run hrest

theorem Fits.reads (h : Fits pattern name) (hname : '*' ∉ name) : Reads pattern name := by
  induction h with
  | done => exact .done
  | one c _ ih => exact .one (takes_iff.2 (.inl rfl)) (ih (fun hin => hname (.tail _ hin)))
  | same c _ _ _ ih => exact .one (takes_iff.2 (.inr rfl)) (ih (fun hin => hname (.tail _ hin)))
  | stop _ ih =>
    have hhead := fun heq => hname (List.mem_of_head? heq)
    exact .run (List.suffix_refl _) hhead (ih hname)
  | @more _ name c _ ih =>
    have hc : c ≠ '*' := fun heq => hname (heq ▸ List.mem_cons_self)
    have hread := ih (fun hin => hname (.tail _ hin))
    refine (reads_star_iff hc).2 ?_
    exact readsRest_iff.2 (.inr (ReadsRest.behind_star ⟨name, List.suffix_refl name, hread⟩))

/-- Matching is told exactly by `Reads`: all that it accepts fits the pattern, and of the names
without `*` it accepts all that fit. A star of the name that meets one of the pattern is taken
for it alone, whatever the name goes on with. -/
theorem accepts_iff (pattern name : String) :
    (accepts pattern name = true ↔ Reads pattern.toList name.toList) ∧
    (accepts pattern name = true → Fits pattern.toList name.toList) ∧
    ('*' ∉ name.toList → Fits pattern.toList name.toList → accepts pattern name = true) :=
  ⟨acceptsChars_iff, fun h => (acceptsChars_iff.1 h).fits,
    fun hname h => acceptsChars_iff.2 (h.reads hname)⟩

/-- The star is tried again when the name turns out not to go on as the pattern does. -/
theorem accepts_second_try :
    '*' ∉ "abcabd".toList ∧ Fits "*?bd*".toList "abcabd".toList ∧
    accepts "*?bd*" "abcabd" = true := by
  have hfits : Fits "*?bd*".toList "abcabd".toList :=
    .more 'a' (.more 'b' (.more 'c' (.stop (.one 'a' (.same 'b' (by decide) (by decide)
      (.same 'd' (by decide) (by decide) (.stop .done)))))))
  exact ⟨by decide, hfits, (accepts_iff _ _).2.2 (by decide) hfits⟩

/-- Matching is not the language of the pattern: `*` stands for any name, but a name that
begins with a star uses it up. -/
theorem accepts_literal_star :
    Fits "*".toList "*x".toList ∧ accepts "*" "*x" = false :=
  ⟨.more '*' (.more 'x' (.stop .done)), by decide⟩

end ArchiveVfs.Wildcard
