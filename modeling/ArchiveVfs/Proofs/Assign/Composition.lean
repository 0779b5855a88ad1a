import ArchiveVfs.Proofs.Assign.Steps
import Mathlib.Data.List.Basic
import Mathlib.Data.List.TakeWhile

/-!
# Paths below an assign

A path below an assign is resolved to the same path below what the assign itself is
resolved to. Putting a rest behind a path commutes with a step (`step?_joinRest`) as soon
as the rest names something: the rest behind a token grows by it, and no token arises
where there was none. So it commutes with the whole resolution.
-/

namespace ArchiveVfs.Assigns

open Text

variable {assigns : Assigns} {path location before rest : List Char} {limit : Nat}

/-- The slash that a location needs before what is put behind it. -/
def separator (location : List Char) : List Char :=
  if needsSlash location then ['/'] else []

/-- The rest names something: not all of it are slashes. -/
def Names (rest : List Char) : Prop :=
  ∃ c ∈ rest, c ≠ '/'

/-! ## Slashes where parts are joined -/

theorem separator_eq (location : List Char) : separator location =
    if location.getLast? = some '/' ∨ location.getLast? = some ':' then [] else ['/'] := by
  by_cases hslash : location.getLast? = some '/' <;>
    by_cases hcolon : location.getLast? = some ':' <;> simp [separator, needsSlash, hslash, hcolon]

theorem joinRest_eq (hrest : rest ≠ []) :
    joinRest location rest = location ++ separator location ++ dropLeading '/' rest := by
  have hempty : rest.isEmpty = false := by simpa using hrest
  rw [joinRest, hempty]
  rfl

/-- A rest without a slash in front is put behind a location as it is, if this ends in a
separator. -/
theorem joinRest_of_separated (hend : separator location = []) (hrest : rest.head? ≠ some '/') :
    joinRest location rest = location ++ rest := by
  by_cases hsome : rest = []
  · rw [hsome, List.append_nil]
    rfl
  · rw [joinRest_eq hsome, hend, List.append_nil, dropLeading_eq_self hrest]

theorem Names.ne_nil (h : Names rest) : rest ≠ [] := by
  obtain ⟨c, hin, _⟩ := h
  exact List.ne_nil_of_mem hin

/-- What is left of a rest that names something begins with another character. -/
theorem Names.dropLeading_eq (h : Names rest) :
    ∃ c more, dropLeading '/' rest = c :: more ∧ c ≠ '/' := by
  obtain ⟨c, hin, hc⟩ := h
  cases hleft : dropLeading '/' rest with
  | nil =>
    have hall := List.dropWhile_eq_nil_iff.1 hleft c hin
    exact absurd (of_decide_eq_true hall) hc
  | cons first more =>
    have hfirst := List.head?_dropWhile_not (· = '/') rest
    rw [show rest.dropWhile (· = '/') = first :: more from hleft] at hfirst
    exact ⟨first, more, rfl, by simpa using hfirst⟩

theorem Names.dropLeading_dropLeading (h : Names rest) :
    dropLeading '/' (dropLeading '/' rest) = dropLeading '/' rest := by
  obtain ⟨c, more, hleft, hc⟩ := h.dropLeading_eq
  rw [hleft, dropLeading_eq_self (by simpa using hc)]

theorem separator_append (h : rest ≠ []) : separator (before ++ rest) = separator rest := by
  rw [separator, separator, needsSlash, needsSlash, List.getLast?_append_of_ne_nil before h]

theorem separator_separated (location : List Char) :
    separator (location ++ separator location) = [] := by
  by_cases hend : location.getLast? = some '/' ∨ location.getLast? = some ':'
  · have hnone : separator location = [] := by rw [separator_eq, if_pos hend]
    rw [hnone, List.append_nil, hnone]
  · rw [separator_eq location, if_neg hend, separator_append (List.cons_ne_nil _ _)]
    rfl

theorem separator_of_slashes (hbefore : before ≠ []) (h : dropLeading '/' before = []) :
    separator before = [] := by
  have hlast := List.getLast?_eq_some_getLast hbefore
  have hall := List.dropWhile_eq_nil_iff.1 h _ (List.getLast_mem hbefore)
  rw [separator_eq, hlast, of_decide_eq_true hall, if_pos (.inl rfl)]

/-- The slashes in front of a location do not matter for its end. -/
theorem separator_dropLeading (h : dropLeading '/' before ≠ []) :
    separator (dropLeading '/' before) = separator before :=
  calc separator (dropLeading '/' before)
    _ = separator (before.takeWhile (· = '/') ++ dropLeading '/' before) :=
      (separator_append h).symm
    _ = separator before := by rw [dropLeading, List.takeWhile_append_dropWhile]

/-- Two rests are put behind a location one after the other or both at once. -/
theorem joinRest_joinRest (hrest : Names rest) (hbefore : before ≠ []) :
    joinRest (joinRest location before) rest
      = joinRest location (before ++ separator before ++ dropLeading '/' rest) := by
  have hwhole : before ++ separator before ++ dropLeading '/' rest ≠ [] := by
    simp [hbefore]
  rw [joinRest_eq hrest.ne_nil, joinRest_eq hbefore, joinRest_eq hwhole, List.append_assoc before]
  by_cases hleft : dropLeading '/' before = []
  · have hdrop : dropLeading '/' (before ++ (separator before ++ dropLeading '/' rest))
        = dropLeading '/' rest := by
      rw [separator_of_slashes hbefore hleft, List.nil_append, dropLeading,
        List.dropWhile_append_of_pos (List.dropWhile_eq_nil_iff.1 hleft)]
      exact hrest.dropLeading_dropLeading
    rw [hdrop, hleft, List.append_nil, separator_separated, List.append_nil]
  · have hdrop : dropLeading '/' (before ++ (separator before ++ dropLeading '/' rest))
        = dropLeading '/' before ++ (separator before ++ dropLeading '/' rest) := by
      rw [dropLeading, List.dropWhile_append, if_neg]
      · rfl
      · rwa [List.isEmpty_iff]
    rw [hdrop, separator_append hleft, separator_dropLeading hleft]
    simp only [List.append_assoc]

/-! ## Tokens in front of a rest -/

/-- Without a colon a path ends in a slash or gets one. -/
theorem slash_mem_separated (hpath : ':' ∉ path) : '/' ∈ path ++ separator path := by
  by_cases hend : path.getLast? = some '/' ∨ path.getLast? = some ':'
  · rcases hend with hlast | hlast
    · exact List.mem_append_left _ (List.mem_of_getLast? hlast)
    · exact absurd (List.mem_of_getLast? hlast) hpath
  · rw [separator_eq, if_neg hend]
    exact List.mem_append_right _ List.mem_cons_self

/-- A part with a slash and without a colon stands before no token's colon. -/
theorem splitToken_eq_none {front back : List Char} (hslash : '/' ∈ front) (hcolon : ':' ∉ front) :
    splitToken (front ++ back) = none := by
  rw [Option.eq_none_iff_forall_ne_some]
  rintro ⟨name, rest⟩ hsplit
  obtain ⟨htext, htoken⟩ := splitToken_eq_some.1 hsplit
  have hname : '/' ∉ name := not_mem_of_isToken htoken (by decide)
  rcases List.append_eq_append_iff.1 htext with ⟨more, rfl, _⟩ | ⟨more, rfl, hmore⟩
  · exact hname (List.mem_append_left _ hslash)
  · cases more with
    | nil => exact hname (by simpa using hslash)
    | cons c more =>
      obtain ⟨rfl, _⟩ := List.cons.inj hmore
      exact hcolon (by simp)

/-- The rest behind a token grows, and no token arises, as there is no slash in a token. -/
theorem splitToken_joinRest (hrest : Names rest) : splitToken (joinRest path rest) =
    (splitToken path).map fun parts =>
      (parts.1, parts.2 ++ separator path ++ dropLeading '/' rest) := by
  rw [joinRest_eq hrest.ne_nil]
  cases hcut : cutFirst ':' path with
  | none =>
    -- a colon of the rest comes behind a slash, and so ends no token
    have hcolon := cutFirst_eq_none.1 hcut
    have hnone : splitToken path = none := by rw [splitToken, hcut, Option.filter_none]
    have hfront : ':' ∉ path ++ separator path := by
      rw [separator]
      split <;> simp [hcolon]
    rw [hnone, splitToken_eq_none (slash_mem_separated hcolon) hfront]
    rfl
  | some parts =>
    obtain ⟨before, after⟩ := parts
    obtain ⟨hpath, hnot⟩ := cutFirst_eq_some hcut
    have hwhole : cutFirst ':' (path ++ separator path ++ dropLeading '/' rest)
        = some (before, after ++ separator path ++ dropLeading '/' rest) := by
      rw [← cutFirst_append hnot, hpath]
      simp only [List.append_assoc, List.cons_append]
    rw [splitToken, splitToken, hwhole, hcut, Option.filter_some, Option.filter_some]
    split <;> rfl

/-- What stands behind a token and a further rest come to be behind its location. -/
theorem joinRest_behind_token (hrest : Names rest) (name before : List Char) :
    joinRest location (before ++ separator (name ++ ':' :: before) ++ dropLeading '/' rest)
      = joinRest (joinRest location before) rest := by
  by_cases hbefore : before = []
  · have hleft : dropLeading '/' rest ≠ [] := by
      obtain ⟨c, more, hleft, _⟩ := hrest.dropLeading_eq
      rw [hleft]
      exact List.cons_ne_nil c more
    have hcolon : separator (name ++ [':']) = [] := separator_append (List.cons_ne_nil _ _)
    rw [hbefore, hcolon, List.nil_append, List.nil_append, joinRest_eq hleft,
      hrest.dropLeading_dropLeading]
    exact (joinRest_eq hrest.ne_nil).symm
  · have hend : separator (name ++ ':' :: before) = separator before := by
      rw [List.append_cons, separator_append hbefore]
    rw [hend, joinRest_joinRest hrest hbefore]

/-- A step and a rest put behind the path may be done in either order. -/
theorem step?_joinRest (hrest : Names rest) : assigns.step? (joinRest path rest) =
    (assigns.step? path).map (joinRest · rest) := by
  rw [step?, step?, splitToken_joinRest hrest]
  cases hsplit : splitToken path with
  | none => rfl
  | some parts =>
    obtain ⟨name, before⟩ := parts
    obtain ⟨rfl, _⟩ := splitToken_eq_some.1 hsplit
    show (assigns.get? (String.ofList name)).map _
      = ((assigns.get? (String.ofList name)).map (joinRest ·.toList before)).map _
    rw [Option.map_map]
    congr 1
    funext location
    exact joinRest_behind_token hrest name before

theorem resolveWithin_joinRest (hrest : Names rest) :
    assigns.resolveWithin limit (joinRest path rest)
      = (assigns.resolveWithin limit path).map (joinRest · rest) := by
  induction limit generalizing path with
  | zero =>
    unfold resolveWithin
    rw [step?_joinRest hrest]
    cases assigns.step? path <;> rfl
  | succ limit ih =>
    unfold resolveWithin
    rw [step?_joinRest hrest]
    cases assigns.step? path with
    | none => rfl
    | some next => exact ih

/-! ## Below an assign -/

theorem resolveWithin_below {name : List Char} (htoken : isToken name = true)
    (hassign : assigns.contains (String.ofList name) = true) (hrest : Names rest) :
    assigns.resolveWithin (limit + 1) (name ++ ':' :: rest)
      = (assigns.resolveWithin (limit + 1) (name ++ [':'])).map (joinRest · rest) := by
  obtain ⟨location, hlocation⟩ := Option.isSome_iff_exists.1 hassign
  have hbare : assigns.Step (name ++ [':']) location.toList :=
    ⟨name, [], location, rfl, htoken, hlocation, rfl⟩
  have hbelow : assigns.Step (name ++ ':' :: rest) (joinRest location.toList rest) :=
    ⟨name, rest, location, rfl, htoken, hlocation, rfl⟩
  rw [resolveWithin_succ hbare, resolveWithin_succ hbelow, resolveWithin_joinRest hrest]

/-- A path below an assign is resolved if and only if the assign is, and then to the path
with the same rest below what the assign is resolved to. -/
theorem resolve_below (assigns : Assigns) (name rest : String)
    (htoken : isToken name.toList = true) (hassign : assigns.contains name = true)
    (hrest : ∃ c ∈ rest.toList, c ≠ '/') :
    ((∃ found, assigns.resolve (name ++ ":" ++ rest) = .ok found) ↔
      ∃ base, assigns.resolve (name ++ ":") = .ok base) ∧
    ∀ base, assigns.resolve (name ++ ":") = .ok base →
      assigns.resolve (name ++ ":" ++ rest)
        = .ok (String.ofList (joinRest base.toList rest.toList)) ∧
      joinRest base.toList rest.toList = base.toList
        ++ (if base.toList.getLast? = some '/' ∨ base.toList.getLast? = some ':' then [] else ['/'])
        ++ rest.toList.dropWhile (· = '/') := by
  have hname : assigns.contains (String.ofList name.toList) = true := by
    rwa [String.ofList_toList]
  have hbelow : assigns.resolveWithin 8 (name ++ ":" ++ rest).toList
      = (assigns.resolveWithin 8 (name ++ ":").toList).map (joinRest · rest.toList) := by
    have hbare : (name ++ ":").toList = name.toList ++ [':'] := by simp
    have hpath : (name ++ ":" ++ rest).toList = name.toList ++ ':' :: rest.toList := by simp
    rw [hbare, hpath]
    exact resolveWithin_below htoken hname hrest
  cases hwithin : assigns.resolveWithin 8 (name ++ ":").toList with
  | none =>
    rw [hwithin] at hbelow
    rw [resolve_of_none hwithin, resolve_of_none hbelow]
    exact ⟨⟨nofun, nofun⟩, nofun⟩
  | some location =>
    rw [hwithin] at hbelow
    rw [resolve_of_some hwithin, resolve_of_some hbelow]
    refine ⟨⟨fun _ => ⟨_, rfl⟩, fun _ => ⟨_, rfl⟩⟩, ?_⟩
    intro base hbase
    obtain rfl := Except.ok.inj hbase
    rw [String.toList_ofList]
    exact ⟨rfl, by rw [joinRest_eq (Names.ne_nil hrest), separator_eq]; rfl⟩

/-- The directory of textures, named through two aliases. -/
def aliases : Assigns :=
  ((Table.empty.insert "root" "file:///game/").insert "home" "root:").insert "textures"
    "home:export/textures"

theorem resolve_below_aliases :
    (isToken "textures".toList = true ∧ aliases.contains "textures" = true ∧
      ∃ c ∈ "//a:b.dds".toList, c ≠ '/') ∧
    aliases.resolve "textures:" = .ok "file:///game/export/textures" ∧
    aliases.resolve "textures://a:b.dds" = .ok "file:///game/export/textures/a:b.dds" := by
  have htoken : isToken "textures".toList = true := by decide
  have hassign : aliases.contains "textures" = true := by decide +kernel
  have hrest : ∃ c ∈ "//a:b.dds".toList, c ≠ '/' := ⟨'a', by decide, by decide⟩
  have hbase : aliases.resolve "textures:" = .ok "file:///game/export/textures" := by
    rw [resolve_eq_ok]
    decide +kernel
  refine ⟨⟨htoken, hassign, hrest⟩, hbase, ?_⟩
  exact ((resolve_below aliases "textures" "//a:b.dds" htoken hassign hrest).2 _ hbase).1.trans
    (congrArg Except.ok (by decide +kernel))

end ArchiveVfs.Assigns
