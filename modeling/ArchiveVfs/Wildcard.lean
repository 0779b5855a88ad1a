/-!
# Wildcards

In a pattern `*` stands for any run of characters, `?` for exactly one, and any
other character for itself. `Fits` is that meaning. `accepts` decides it in one
pass over the name: of the stars met so far only the last is kept, with the
place in the name from which it was last tried. A character of the name that
equals the pattern's character is taken first, before the pattern's character
is read as a star, so a `*` in the name uses up a star of the pattern.
-/

namespace ArchiveVfs.Wildcard

/-- The name is in the language of the pattern. -/
inductive Fits : List Char → List Char → Prop where
  /-- Nothing fits the empty pattern but the empty name. -/
  | done : Fits [] []
  /-- A question mark takes one character. -/
  | one {pattern name : List Char} (c : Char) :
      Fits pattern name → Fits ('?' :: pattern) (c :: name)
  /-- Any character but a star or a question mark takes itself. -/
  | same {pattern name : List Char} (c : Char) (hstar : c ≠ '*') (hone : c ≠ '?') :
      Fits pattern name → Fits (c :: pattern) (c :: name)
  /-- A star may take nothing more. -/
  | stop {pattern name : List Char} : Fits pattern name → Fits ('*' :: pattern) name
  /-- A star may take one more character. -/
  | more {pattern name : List Char} (c : Char) :
      Fits ('*' :: pattern) name → Fits ('*' :: pattern) (c :: name)

/-- Whether the pattern's character `p` takes the name's character `c` as it is. -/
def takes (p c : Char) : Bool :=
  p = '?' || p = c

/-- What is left of a pattern when the name is used up has to be stars. -/
def onlyStars (pattern : List Char) : Bool :=
  pattern.all (· = '*')

/-- Goes on after a star: `star` is the pattern behind the last star, `tried` the
name from the place where that star was last tried. When `pattern` takes no
further character, the star takes one more and `star` starts over. -/
def acceptsAfter (star tried pattern name : List Char)
    (inStar : pattern.length ≤ star.length) : Bool :=
  match pattern, name with
  | pattern, [] => onlyStars pattern
  | [], _ :: _ =>
    match tried with
    | [] => false
    | _ :: later => acceptsAfter star later star later (Nat.le_refl _)
  | p :: pattern, c :: name =>
    if takes p c then
      acceptsAfter star tried pattern name (Nat.le_of_succ_le inStar)
    else if p = '*' then
      acceptsAfter pattern (c :: name) pattern (c :: name) (Nat.le_refl _)
    else
      match tried with
      | [] => false
      | _ :: later => acceptsAfter star later star later (Nat.le_refl _)
termination_by (star.length, tried.length, pattern.length + name.length)
decreasing_by
  all_goals simp only [List.length_cons] at *
  all_goals simp [Prod.lex_def]
  all_goals omega

/-- Decides whether the name fits the pattern, before any star is met. -/
def acceptsChars : (pattern name : List Char) → Bool
  | pattern, [] => onlyStars pattern
  | [], _ :: _ => false
  | p :: pattern, c :: name =>
    if takes p c then acceptsChars pattern name
    else if p = '*' then acceptsAfter pattern (c :: name) pattern (c :: name) (Nat.le_refl _)
    else false

/-- Whether `name` matches `pattern`. -/
def accepts (pattern name : String) : Bool :=
  acceptsChars pattern.toList name.toList

end ArchiveVfs.Wildcard
