import ArchiveVfs.Proofs.Json.Scalars
import ArchiveVfs.Proofs.Outcome

/-!
# Layouts of a text

A text is a layout of a value if it consists of the tokens of the value with any blanks
between them (`LaidOut`); the written form is the layout without blanks. From the front of
any layout a reader takes what belongs to a value and leaves a layout of what follows:
values without parts (`readScalar_laidOut`), and objects member by member
(`readMembers_laidOut`).
-/

namespace ArchiveVfs.Json

/-! ## Tokens -/

/-- What stands before a part of an array or an object. -/
def commaTokens (isFirst : Bool) : List (List Char) :=
  if isFirst then [] else [[',']]

mutual

/-- The tokens of a value. -/
def tokens : Json → List (List Char)
  | .null => [['n', 'u', 'l', 'l']]
  | .bool true => [['t', 'r', 'u', 'e']]
  | .bool false => [['f', 'a', 'l', 's', 'e']]
  | .number digits => [digits]
  | .text value => [stringWritten value]
  | .array items => ['['] :: itemsTokens true items
  | .object members => ['\x7b'] :: membersTokens true members

/-- The tokens of the items of an array, to its end. -/
def itemsTokens (isFirst : Bool) : List Json → List (List Char)
  | [] => [[']']]
  | item :: rest => commaTokens isFirst ++ (tokens item ++ itemsTokens false rest)

/-- The tokens of a member of an object. -/
def memberTokens : String × Json → List (List Char)
  | (key, value) => stringWritten key :: [':'] :: tokens value

/-- The tokens of the members of an object, to its end. -/
def membersTokens (isFirst : Bool) : List (String × Json) → List (List Char)
  | [] => [['\x7d']]
  | member :: rest => commaTokens isFirst ++ (memberTokens member ++ membersTokens false rest)

end

mutual

/-- The written form is made of the tokens alone. -/
theorem flatten_tokens : ∀ value : Json, value.tokens.flatten = value.written
  | .null => rfl
  | .bool true => rfl
  | .bool false => rfl
  | .number digits => by simp [tokens, written]
  | .text value => by simp [tokens, written]
  | .array [] => by simp [tokens, itemsTokens, written]
  | .array (item :: rest) => by
    simp [tokens, itemsTokens, commaTokens, written, flatten_tokens item,
      flatten_itemsTokens rest]
  | .object [] => by simp [tokens, membersTokens, written]
  | .object (member :: rest) => by
    simp [tokens, membersTokens, commaTokens, written, flatten_memberTokens member,
      flatten_membersTokens rest]

theorem flatten_itemsTokens : ∀ items : List Json,
    (itemsTokens false items).flatten = itemsWritten items ++ [']']
  | [] => by simp [itemsTokens, itemsWritten]
  | item :: rest => by
    simp [itemsTokens, commaTokens, itemsWritten, flatten_tokens item, flatten_itemsTokens rest]

theorem flatten_memberTokens : ∀ member : String × Json,
    (memberTokens member).flatten = memberWritten member
  | (key, value) => by simp [memberTokens, memberWritten, flatten_tokens value]

theorem flatten_membersTokens : ∀ members : List (String × Json),
    (membersTokens false members).flatten = membersWritten members ++ ['\x7d']
  | [] => by simp [membersTokens, membersWritten]
  | member :: rest => by
    simp [membersTokens, commaTokens, membersWritten, flatten_memberTokens member,
      flatten_membersTokens rest]

end

/-- Every member takes a character, and so does the end. -/
theorem length_lt_flatten (isFirst : Bool) (members : List (String × Json)) :
    members.length < (membersTokens isFirst members).flatten.length := by
  induction members generalizing isFirst with
  | nil => simp [membersTokens]
  | cons member rest ih =>
    obtain ⟨key, value⟩ := member
    have hrest := ih false
    simp only [membersTokens, memberTokens, stringWritten, List.flatten_append,
      List.flatten_cons, List.length_append, List.length_cons]
    omega

/-! ## Layouts -/

/-- The text consists of the tokens, with any blanks before, between and behind them. -/
def LaidOut : List (List Char) → List Char → Prop
  | [], cs => ∀ c ∈ cs, isBlank c = true
  | token :: later, cs => ∃ blanks rest, cs = blanks ++ (token ++ rest) ∧
      (∀ c ∈ blanks, isBlank c = true) ∧ LaidOut later rest

variable {later : List (List Char)} {cs rest : List Char} {c : Char} {token : List Char}

/-- Tokens with the same blanks before each of them. -/
theorem laidOut_flatMap {blanks : List Char} (hblanks : ∀ c ∈ blanks, isBlank c = true)
    (parts : List (List Char)) : LaidOut parts (parts.flatMap fun token => blanks ++ token) := by
  induction parts with
  | nil => exact nofun
  | cons token later ih =>
    refine ⟨blanks, later.flatMap fun token => blanks ++ token, ?_, hblanks, ih⟩
    rw [List.flatMap_cons, List.append_assoc]

theorem laidOut_flatten (parts : List (List Char)) : LaidOut parts parts.flatten := by
  have h := laidOut_flatMap (List.forall_mem_nil _) parts
  simp only [List.nil_append, List.flatMap_id'] at h
  exact h

theorem LaidOut.length_le {parts : List (List Char)} (h : LaidOut parts cs) :
    parts.flatten.length ≤ cs.length := by
  induction parts generalizing cs with
  | nil => exact Nat.zero_le _
  | cons token later ih =>
    obtain ⟨blanks, rest, rfl, _, hrest⟩ := h
    have hlater := ih hrest
    simp only [List.flatten_cons, List.length_append]
    omega

theorem skipBlanks_append {blanks : List Char} (hblanks : ∀ c ∈ blanks, isBlank c = true) :
    skipBlanks (blanks ++ rest) = skipBlanks rest :=
  List.dropWhile_append_of_pos hblanks

/-- Behind the blanks stands the next token, if it does not begin with one itself. -/
theorem LaidOut.next (h : LaidOut ((c :: token) :: later) cs) (hc : isBlank c = false) :
    ∃ rest, skipBlanks cs = c :: (token ++ rest) ∧ LaidOut later rest := by
  obtain ⟨blanks, rest, rfl, hblanks, hrest⟩ := h
  refine ⟨rest, ?_, hrest⟩
  rw [skipBlanks_append hblanks, skipBlanks, List.cons_append, List.dropWhile_cons_of_neg]
  rw [hc]
  decide

/-- What stands behind a member of an object. -/
def Ends (later : List (List Char)) : Prop :=
  ∃ rest, later = [','] :: rest ∨ later = ['\x7d'] :: rest

theorem ends_membersTokens (members : List (String × Json)) (later : List (List Char)) :
    Ends (membersTokens false members ++ later) := by
  cases members with
  | nil => exact ⟨later, .inr rfl⟩
  | cons member rest => exact ⟨memberTokens member ++ membersTokens false rest ++ later, .inl rfl⟩

/-- Neither a blank nor what ends a member belongs to a number. -/
theorem LaidOut.endsNumber (hends : Ends later) (h : LaidOut later rest) : EndsNumber rest := by
  obtain ⟨token, behind, hlater, hhead⟩ : ∃ token behind, later = token :: behind ∧
      (token = [','] ∨ token = ['\x7d']) := by
    obtain ⟨behind, rfl | rfl⟩ := hends
    · exact ⟨_, behind, rfl, .inl rfl⟩
    · exact ⟨_, behind, rfl, .inr rfl⟩
  subst hlater
  obtain ⟨blanks, others, rfl, hblanks, _⟩ := h
  intro c hc
  cases blanks with
  | nil =>
    rcases hhead with rfl | rfl
    · obtain rfl := Option.some.inj hc
      decide
    · obtain rfl := Option.some.inj hc
      decide
  | cons d blanks =>
    obtain rfl := Option.some.inj hc
    have hblank := hblanks d List.mem_cons_self
    simp only [isBlank, Bool.or_eq_true, decide_eq_true_eq] at hblank
    rcases hblank with ((rfl | rfl) | rfl) | rfl
    all_goals decide

/-! ## Values without parts -/

/-- What a value without parts is found as. -/
inductive FoundAs : Json → Found → Prop where
  | null : FoundAs .null .null
  | bool (value : Bool) : FoundAs (.bool value) (.bool value)
  | text (value : String) : FoundAs (.text value) (.text value)
  | natural (value : Nat) (hsize : value < UInt64.size) :
      FoundAs (.number (Nat.toDigits 10 value)) (.number (.natural value))

/-- A written number begins with a digit. -/
theorem digit_toDigits (n : Nat) :
    ∃ c digits, Nat.toDigits 10 n = c :: digits ∧ c.isDigit = true := by
  cases hdigits : Nat.toDigits 10 n with
  | nil => exact absurd hdigits Nat.toDigits_ne_nil
  | cons c digits =>
    have hin : c ∈ Nat.toDigits 10 n := by
      rw [hdigits]
      exact List.mem_cons_self
    exact ⟨c, digits, rfl, Nat.isDigit_of_mem_toDigits (by decide) (by decide) hin⟩

theorem readFound_digit (hc : c.isDigit = true) (rest : List Char) :
    isBlank c = false ∧
    readFound (c :: rest) = (readNumber false (c :: rest)).map fun parts =>
      (.number parts.1, parts.2) := by
  have hne {d : Char} (hd : d.isDigit = false) : c ≠ d := by
    rintro rfl
    rw [hc] at hd
    cases hd
  constructor
  · simp [isBlank, hne]
  · simp [readFound, hne, hc]

/-- A value without parts is found at the front of a layout. -/
theorem readFound_laidOut {value : Json} {found : Found} (hfound : FoundAs value found)
    (hends : Ends later) (h : LaidOut (value.tokens ++ later) cs) :
    ∃ rest, readFound (skipBlanks cs) = .ok (found, rest) ∧ LaidOut later rest := by
  cases hfound with
  | null =>
    obtain ⟨rest, hnext, hrest⟩ := LaidOut.next h (by decide)
    rw [hnext]
    exact ⟨rest, rfl, hrest⟩
  | bool value =>
    cases value with
    | true =>
      obtain ⟨rest, hnext, hrest⟩ := LaidOut.next h (by decide)
      rw [hnext]
      exact ⟨rest, rfl, hrest⟩
    | false =>
      obtain ⟨rest, hnext, hrest⟩ := LaidOut.next h (by decide)
      rw [hnext]
      exact ⟨rest, rfl, hrest⟩
  | text value =>
    obtain ⟨rest, hnext, hrest⟩ := LaidOut.next h (by decide)
    obtain ⟨behind, hbehind, hread⟩ := readText_written value rest
    refine ⟨rest, ?_, hrest⟩
    rw [show skipBlanks cs = _ from hnext.trans hbehind]
    show (readText [] behind).map _ = _
    rw [hread]
    rfl
  | natural value hsize =>
    obtain ⟨c, digits, hwritten, hdigit⟩ := digit_toDigits value
    have hc := (readFound_digit hdigit []).1
    rw [tokens, hwritten] at h
    obtain ⟨rest, hnext, hrest⟩ := LaidOut.next h hc
    have hread := readNumber_toDigits hsize (hrest.endsNumber hends)
    rw [hwritten, List.cons_append] at hread
    rw [hnext, (readFound_digit hdigit _).2, hread]
    exact ⟨rest, rfl, hrest⟩

theorem readScalar_laidOut {α : Type} (accept : Found → Except Complaint α) {value : Json}
    {found : Found} {result : α} (hfound : FoundAs value found)
    (haccept : accept found = .ok result) (hends : Ends later)
    (h : LaidOut (value.tokens ++ later) cs) :
    ∃ rest, readScalar accept cs = .ok (result, rest) ∧ LaidOut later rest := by
  obtain ⟨rest, hread, hrest⟩ := readFound_laidOut hfound hends h
  refine ⟨rest, ?_, hrest⟩
  rw [readScalar, hread]
  simp only [haccept]

/-! ## Objects -/

theorem readColon_laidOut (h : LaidOut ([':'] :: later) cs) :
    ∃ rest, readColon cs = .ok rest ∧ LaidOut later rest := by
  obtain ⟨rest, hnext, hrest⟩ := LaidOut.next h (by decide)
  refine ⟨rest, ?_, hrest⟩
  rw [readColon, hnext]
  rfl

/-- Behind the last member the end of the object is found. -/
theorem nextKey_end (isFirst : Bool) (h : LaidOut (membersTokens isFirst [] ++ later) cs) :
    ∃ rest, nextKey isFirst cs = .ok (none, rest) ∧ LaidOut later rest := by
  obtain ⟨rest, hnext, hrest⟩ := LaidOut.next h (by decide)
  refine ⟨rest, ?_, hrest⟩
  rw [nextKey, hnext]
  rfl

/-- Otherwise the key of the next member is found. -/
theorem nextKey_member (isFirst : Bool) {key : String} {value : Json}
    {members : List (String × Json)}
    (h : LaidOut (membersTokens isFirst ((key, value) :: members) ++ later) cs) :
    ∃ rest, nextKey isFirst cs = .ok (some key, rest) ∧
      LaidOut ([':'] :: (value.tokens ++ (membersTokens false members ++ later))) rest := by
  have hkey {cs : List Char} (h : LaidOut (stringWritten key ::
      [':'] :: (value.tokens ++ (membersTokens false members ++ later))) cs) :
      ∃ behind rest, skipBlanks cs = '\x22' :: behind ∧ readText [] behind = .ok (key, rest) ∧
        LaidOut ([':'] :: (value.tokens ++ (membersTokens false members ++ later))) rest := by
    obtain ⟨rest, hnext, hrest⟩ := LaidOut.next h (by decide)
    obtain ⟨behind, hbehind, hread⟩ := readText_written key rest
    exact ⟨behind, rest, hnext.trans hbehind, hread, hrest⟩
  cases isFirst with
  | true =>
    have h' : LaidOut (stringWritten key ::
        [':'] :: (value.tokens ++ (membersTokens false members ++ later))) cs := by
      simpa [membersTokens, memberTokens, commaTokens] using h
    obtain ⟨behind, rest, hnext, hread, hrest⟩ := hkey h'
    refine ⟨rest, ?_, hrest⟩
    rw [nextKey, hnext]
    show (readText [] behind).map _ = _
    rw [hread]
    rfl
  | false =>
    have h' : LaidOut ([','] :: stringWritten key ::
        [':'] :: (value.tokens ++ (membersTokens false members ++ later))) cs := by
      simpa [membersTokens, memberTokens, commaTokens] using h
    obtain ⟨between, hcomma, hbetween⟩ := LaidOut.next h' (by decide)
    obtain ⟨behind, rest, hnext, hread, hrest⟩ := hkey hbetween
    refine ⟨rest, ?_, hrest⟩
    rw [List.nil_append] at hcomma
    simp [nextKey, hcomma, hnext, hread, Except.map]

/-- The reader of members takes the members one after the other from one state to another,
however they are laid out and whatever follows them. -/
inductive Passes {σ : Type} (member : σ → String → List Char → Except Fault (σ × List Char)) :
    σ → List (String × Json) → σ → Prop where
  | nil (state : σ) : Passes member state [] state
  | cons {state next last : σ} {key : String} {value : Json} {members : List (String × Json)}
      (hmember : ∀ {later : List (List Char)} {cs : List Char}, Ends later →
        LaidOut ([':'] :: (value.tokens ++ later)) cs →
        ∃ rest, member state key cs = .ok (next, rest) ∧ LaidOut later rest)
      (hmembers : Passes member next members last) :
      Passes member state ((key, value) :: members) last

theorem readMembers_of_passes {σ : Type}
    {member : σ → String → List Char → Except Fault (σ × List Char)} {state last : σ}
    {members : List (String × Json)} (hpasses : Passes member state members last)
    {steps : Nat} (hsteps : members.length < steps) (isFirst : Bool)
    (h : LaidOut (membersTokens isFirst members ++ later) cs) :
    ∃ rest, readMembers member steps isFirst state cs = .ok (last, rest) ∧ LaidOut later rest := by
  induction hpasses generalizing steps isFirst cs with
  | nil state =>
    obtain ⟨steps, rfl⟩ := Nat.exists_eq_add_one_of_ne_zero (Nat.ne_of_gt hsteps)
    obtain ⟨rest, hend, hrest⟩ := nextKey_end isFirst h
    refine ⟨rest, ?_, hrest⟩
    rw [readMembers, hend]
  | @cons state next last key value members hmember _ ih =>
    obtain ⟨steps, rfl⟩ := Nat.exists_eq_add_one_of_ne_zero (Nat.ne_of_gt
      (Nat.lt_of_le_of_lt (Nat.zero_le _) hsteps))
    obtain ⟨behind, hkey, hbehind⟩ := nextKey_member isFirst h
    obtain ⟨others, hread, hothers⟩ := hmember (ends_membersTokens members later) hbehind
    obtain ⟨rest, hall, hrest⟩ := ih (Nat.lt_of_succ_lt_succ hsteps) false hothers
    refine ⟨rest, ?_, hrest⟩
    rw [readMembers, hkey]
    simp only [hread, hall]

/-- An object is read behind its opening brace, member by member. -/
theorem readMembers_laidOut {σ : Type}
    {member : σ → String → List Char → Except Fault (σ × List Char)} {state last : σ}
    {members : List (String × Json)} (hpasses : Passes member state members last)
    (h : LaidOut (membersTokens true members ++ later) cs) :
    ∃ rest, readMembers member (cs.length + 1) true state cs = .ok (last, rest) ∧
      LaidOut later rest := by
  refine readMembers_of_passes hpasses ?_ true h
  have hlength := h.length_le
  have hmembers := length_lt_flatten true members
  rw [List.flatten_append, List.length_append] at hlength
  omega

end ArchiveVfs.Json
