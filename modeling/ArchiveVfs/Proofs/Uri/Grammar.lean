import Mathlib.Data.List.Induction
import ArchiveVfs.Proofs.Uri.RoundTrip

/-!
# Which texts are URIs

A text with a colon has `Parts`, each of which ends where a character stands that it cannot
hold. The parser cuts the text from both sides, at the first number sign before the first question
mark and at the first slash last, and yet finds these parts, wherever else their delimiters
stand (`Parts.parse_spell`). `parse_iff` says by the parts which texts are read and what is
read from them.
-/

namespace ArchiveVfs.Uri

open Text

/-! ## Decimal numbers -/

/-- A number in decimal digits, with a plus sign and with zeros before it or without. -/
def SpellsNumber (number : Nat) (cs : List Char) : Prop :=
  ∃ sign zeros, (sign = [] ∨ sign = ['+']) ∧
    cs = sign ++ (List.replicate zeros '0' ++ Nat.toDigits 10 number)

section Numbers

variable {c : Char} {cs : List Char}

theorem digitsValue_concat (cs : List Char) (c : Char) :
    digitsValue (cs ++ [c]) = 10 * digitsValue cs + (c.toNat - 48) := by
  rw [digitsValue, List.foldl_append, ← digitsValue, Nat.mul_comm]
  rfl

/-- A digit is the one of its value. -/
theorem toDigits_of_isDigit (h : c.isDigit = true) :
    c.toNat - 48 < 10 ∧ Nat.toDigits 10 (c.toNat - 48) = [c] := by
  have hascii : c.toNat < 128 := ascii_of_isSchemeChar (by simp [isSchemeChar, Char.isAlphanum, h])
  have hdigit : c.toNat - 48 < 10 ∧ (c.toNat - 48).digitChar = c :=
    Utf8.of_toNat_lt (P := fun c => c.isDigit = true →
      c.toNat - 48 < 10 ∧ (c.toNat - 48).digitChar = c) (by decide) hascii h
  rw [Nat.toDigits_of_lt_base hdigit.1, hdigit.2]
  exact ⟨hdigit.1, rfl⟩

/-- Digits are those of their value behind zeros. -/
theorem eq_toDigits_digitsValue (hsome : cs ≠ []) (hdigits : ∀ c ∈ cs, c.isDigit = true) :
    ∃ zeros, cs = List.replicate zeros '0' ++ Nat.toDigits 10 (digitsValue cs) := by
  induction cs using List.reverseRecOn with
  | nil => exact absurd rfl hsome
  | append_singleton front c ih =>
    obtain ⟨hless, hlast⟩ := toDigits_of_isDigit (hdigits c (by simp))
    have hfront : ∀ d ∈ front, d.isDigit = true := fun d hin => hdigits d (by simp [hin])
    rw [digitsValue_concat]
    cases hnil : front with
    | nil => exact ⟨0, by simpa [digitsValue] using hlast.symm⟩
    | cons first more =>
      rw [← hnil]
      obtain ⟨zeros, hzeros⟩ := ih (by simp [hnil]) hfront
      rcases Nat.eq_zero_or_pos (digitsValue front) with hzero | hpos
      · -- so far there were zeros only, and they are all before the last digit
        rw [hzero] at hzeros ⊢
        refine ⟨zeros + 1, ?_⟩
        rw [hzeros, Nat.mul_zero, Nat.zero_add, hlast, List.replicate_succ']
        rfl
      · refine ⟨zeros, ?_⟩
        rw [← Nat.toDigits_append_toDigits (by decide) hpos hless, hlast, ← List.append_assoc,
          ← hzeros]

theorem digitsValue_zeros (zeros number : Nat) :
    digitsValue (List.replicate zeros '0' ++ Nat.toDigits 10 number) = number := by
  have hzeros : digitsValue (List.replicate zeros '0') = 0 := by
    induction zeros with
    | zero => rfl
    | succ zeros ih => rw [List.replicate_succ', digitsValue_concat, ih]; rfl
  rw [digitsValue, List.foldl_append, ← digitsValue, hzeros]
  exact digitsValue_toDigits number

theorem isDigit_of_mem_zeros {zeros number : Nat}
    (h : c ∈ List.replicate zeros '0' ++ Nat.toDigits 10 number) : c.isDigit = true := by
  rcases List.mem_append.1 h with h | h
  · rw [(List.mem_replicate.1 h).2]
    rfl
  · exact Nat.isDigit_of_mem_toDigits (by decide) (by decide) h

/-- A port is read from the decimal numbers that fit. -/
theorem portValue?_eq_some_iff {port : UInt16} :
    portValue? cs = some port ↔ SpellsNumber port.toNat cs := by
  constructor
  · intro h
    obtain ⟨sign, digits, hsign, hcs, hdigits⟩ : ∃ sign digits, (sign = [] ∨ sign = ['+']) ∧
        cs = sign ++ digits ∧ (if cs.head? = some '+' then cs.tail else cs) = digits := by
      by_cases hplus : cs.head? = some '+'
      · rw [if_pos hplus]
        exact ⟨['+'], cs.tail, .inr rfl, (List.cons_head?_tail hplus).symm, rfl⟩
      · rw [if_neg hplus]
        exact ⟨[], cs, .inl rfl, rfl, rfl⟩
    rw [portValue?, hdigits] at h
    split at h
    · rename_i hcheck
      simp only [Bool.and_eq_true, Bool.not_eq_true', List.isEmpty_eq_false_iff,
        decide_eq_true_eq, List.all_eq_true] at hcheck
      obtain ⟨⟨hsome, hall⟩, hbound⟩ := hcheck
      have hvalue : port.toNat = digitsValue digits := by
        rw [← Option.some.inj h]
        exact UInt16.toNat_ofNat_of_lt' (Nat.lt_succ_of_le hbound)
      obtain ⟨zeros, hzeros⟩ := eq_toDigits_digitsValue hsome hall
      exact ⟨sign, zeros, hsign, by rw [hcs, hvalue, ← hzeros]⟩
    · cases h
  · rintro ⟨sign, zeros, hsign, rfl⟩
    have hsome : List.replicate zeros '0' ++ Nat.toDigits 10 port.toNat ≠ [] := by
      simp [Nat.toDigits_ne_nil]
    have hall : (List.replicate zeros '0' ++ Nat.toDigits 10 port.toNat).all Char.isDigit = true :=
      List.all_eq_true.2 fun c => isDigit_of_mem_zeros
    have hvalue := digitsValue_zeros zeros port.toNat
    have hbound := port.toNat_lt
    generalize List.replicate zeros '0' ++ Nat.toDigits 10 port.toNat = digits
      at hsome hall hvalue ⊢
    have hcut : (if (sign ++ digits).head? = some '+' then (sign ++ digits).tail
        else sign ++ digits) = digits := by
      rcases hsign with rfl | rfl
      · rw [List.nil_append, if_neg]
        intro hplus
        have := List.all_eq_true.1 hall '+' (List.mem_of_head? hplus)
        cases this
      · rfl
    rw [portValue?, hcut, hvalue, hall, UInt16.ofNat_toNat, if_pos]
    simpa using ⟨hsome, Nat.le_of_lt_succ hbound⟩

/-- An authority is read if what stands behind its last colon is nothing or a number that fits. -/
theorem readAuthority_isOk_iff {authority : List Char} :
    (∃ found, readAuthority authority = .ok found) ↔
      ∀ host port, authority = host ++ ':' :: port → ':' ∉ port →
        port = [] ∨ ∃ number, number ≤ 65535 ∧ SpellsNumber number port := by
  rw [readAuthority]
  cases hcut : cutLast ':' authority with
  | none =>
    refine ⟨fun _ host port heq => ?_, fun _ => ⟨_, rfl⟩⟩
    exact absurd (by simp [heq]) (cutLast_eq_none.1 hcut)
  | some parts =>
    obtain ⟨before, after⟩ := parts
    obtain ⟨rfl, hafter⟩ := cutLast_eq_some hcut
    have honly : (∀ host port, before ++ ':' :: after = host ++ ':' :: port → ':' ∉ port →
        port = [] ∨ ∃ number, number ≤ 65535 ∧ SpellsNumber number port) ↔
        (after = [] ∨ ∃ number, number ≤ 65535 ∧ SpellsNumber number after) := by
      refine ⟨fun h => h before after rfl hafter, fun h host port heq hport => ?_⟩
      rw [heq, cutLast_append hport] at hcut
      obtain ⟨_, rfl⟩ := Prod.mk.inj (Option.some.inj hcut)
      exact h
    rw [honly]
    cases after with
    | nil => simp
    | cons c after =>
      simp only [reduceCtorEq, false_or]
      cases hvalue : portValue? (c :: after) with
      | some port =>
        refine ⟨fun _ => ⟨port.toNat, Nat.le_of_lt_succ port.toNat_lt, ?_⟩, fun _ => ⟨_, rfl⟩⟩
        exact portValue?_eq_some_iff.1 hvalue
      | none =>
        constructor
        · rintro ⟨found, hfound⟩
          cases hfound
        · rintro ⟨number, hbound, hspells⟩
          have hnumber : (UInt16.ofNat number).toNat = number :=
            UInt16.toNat_ofNat_of_lt' (Nat.lt_succ_of_le hbound)
          rw [← hnumber, ← portValue?_eq_some_iff, hvalue] at hspells
          cases hspells

end Numbers

/-! ## Parts -/

/-- A part behind the character that leads to it, if it is there. -/
def led (lead : Char) : Option (List Char) → List Char
  | none => []
  | some part => lead :: part

/-- The parts of a text with a colon. -/
structure Parts where
  /-- What stands before the first colon. -/
  scheme : List Char
  /-- What follows `//` behind it, up to the first slash, question mark or number sign. -/
  authority : Option (List Char)
  /-- What follows up to a question mark or number sign. -/
  path : List Char
  /-- What follows the question mark up to a number sign. -/
  query : Option (List Char)
  /-- What follows the number sign. -/
  fragment : Option (List Char)
  scheme_chars : ':' ∉ scheme
  authority_chars : ∀ c ∈ authority.getD [], c ≠ '/' ∧ c ≠ '?' ∧ c ≠ '#'
  path_chars : ∀ c ∈ path, c ≠ '?' ∧ c ≠ '#'
  path_behind : authority ≠ none → path = [] ∨ path.head? = some '/'
  path_alone : authority = none → ¬ ['/', '/'] <+: path
  query_chars : '#' ∉ query.getD []

/-- The text with these parts. -/
def Parts.spell (parts : Parts) : List Char :=
  parts.scheme ++ ':' :: ((parts.authority.map (['/', '/'] ++ ·)).getD []
    ++ parts.path ++ led '?' parts.query ++ led '#' parts.fragment)

section Cuts

variable {sep : Char} {cs front : List Char} {part : Option (List Char)}

theorem cutOff_led (h : sep ∉ front) : cutOff sep (front ++ led sep part) = (front, part) := by
  cases part with
  | none => rw [led, List.append_nil, cutOff_of_not_mem h]
  | some part => exact cutOff_append h

theorem append_led_cutOff (sep : Char) (cs : List Char) :
    (cutOff sep cs).1 ++ led sep (cutOff sep cs).2 = cs := by
  rw [cutOff]
  cases hcut : cutFirst sep cs with
  | none => exact List.append_nil cs
  | some parts => exact (cutFirst_eq_some hcut).1.symm

theorem not_mem_led {c : Char} (hlead : c ≠ sep) (hpart : c ∉ part.getD []) :
    c ∉ led sep part := by
  cases part with
  | none => exact List.not_mem_nil
  | some part => exact fun hin => (List.mem_cons.1 hin).elim hlead hpart

/-- Before a query or a fragment no path is taken for one with an authority. -/
theorem isPrefixOf_slashes {path : List Char} (h : ¬ ['/', '/'] <+: path)
    (query fragment : Option (List Char)) :
    ['/', '/'].isPrefixOf (path ++ led '?' query ++ led '#' fragment) = false := by
  rcases path with _ | ⟨first, _ | ⟨second, rest⟩⟩
  · cases query <;> cases fragment <;> simp [led, List.isPrefixOf]
  · cases query <;> cases fragment <;> simp [led, List.isPrefixOf]
  · simpa [List.isPrefixOf, List.cons_prefix_cons] using h

end Cuts

namespace Parts

variable (parts : Parts)

/-- What is read from the parts behind a scheme. -/
def read : Except ParseFault Uri :=
  let uri : Uri :=
    { scheme := lowerCase (String.ofList parts.scheme)
      localPath := String.ofList (Percent.decode parts.path)
      query := readQuery (parts.query.getD [])
      fragment := parts.fragment.map fun cs => String.ofList (Percent.decode cs) }
  match parts.authority with
  | none => .ok uri
  | some authority => (readAuthority authority).map fun found =>
    { uri with host := String.ofList found.1, port := found.2 }

/-- The cuts of the parser find the parts. -/
theorem parse_spell : parse (String.ofList parts.spell)
    = if isScheme parts.scheme then parts.read else .error .badScheme := by
  obtain ⟨scheme, authority, path, query, fragment, hscheme, hauthority, hpath, hbehind, halone,
    hquery⟩ := parts
  rw [parse, String.toList_ofList, spell, cutFirst_append hscheme]
  dsimp only
  congr 1
  have hnumber : '#' ∉ path ++ led '?' query := by
    rw [List.mem_append, not_or]
    exact ⟨fun hin => (hpath '#' hin).2 rfl, not_mem_led (by decide) hquery⟩
  have hmark : '?' ∉ path := fun hin => (hpath '?' hin).1 rfl
  cases authority with
  | none =>
    have hslashes := isPrefixOf_slashes (halone rfl) query fragment
    simp only [readRest, Option.map_none, Option.getD_none, List.nil_append, hslashes, if_false,
      Bool.false_eq_true, cutOff_led hnumber, cutOff_led hmark, read]
  | some authority =>
    have hchars : ∀ c ∈ authority, c ≠ '/' ∧ c ≠ '?' ∧ c ≠ '#' := hauthority
    have hslash : '/' ∉ authority := fun hin => (hchars _ hin).1 rfl
    have hmark' : '?' ∉ authority ++ path := by
      rw [List.mem_append, not_or]
      exact ⟨fun hin => (hchars _ hin).2.1 rfl, hmark⟩
    have hnumber' : '#' ∉ authority ++ path ++ led '?' query := by
      rw [List.append_assoc, List.mem_append, not_or]
      exact ⟨fun hin => (hchars _ hin).2.2 rfl, hnumber⟩
    have hslashes (rest : List Char) : ['/', '/'].isPrefixOf ('/' :: '/' :: rest) = true := rfl
    simp only [readRest, Option.map_some, Option.getD_some, List.cons_append, List.nil_append,
      hslashes, if_true, List.drop_succ_cons, List.drop_zero, cutOff_led hnumber',
      cutOff_led hmark', cutPath_append hslash (hbehind (by simp)), read]

/-- What stands before a query and a fragment, and these. -/
theorem exists_cut (cs : List Char) : ∃ front query fragment,
    cs = front ++ led '?' query ++ led '#' fragment ∧
      (∀ c ∈ front, c ≠ '?' ∧ c ≠ '#') ∧ '#' ∉ query.getD [] := by
  obtain ⟨_, hnumber⟩ := of_cutOff '#' cs
  have hcs := append_led_cutOff '#' cs
  generalize (cutOff '#' cs).1 = inner at hnumber hcs
  obtain ⟨hfront, hmark⟩ := of_cutOff '?' inner
  have hinner := append_led_cutOff '?' inner
  refine ⟨(cutOff '?' inner).1, (cutOff '?' inner).2, (cutOff '#' cs).2, ?_, ?_, ?_⟩
  · rw [hinner, hcs]
  · exact fun c hin => ⟨fun heq => hmark (heq ▸ hin), fun heq => hnumber (heq ▸ hfront.subset hin)⟩
  · intro hin
    apply hnumber
    rw [← hinner]
    cases hquery : (cutOff '?' inner).2 with
    | none =>
      rw [hquery] at hin
      cases hin
    | some query =>
      rw [hquery] at hin
      exact List.mem_append_right _ (List.mem_cons_of_mem _ hin)

/-- Every text with a colon has parts. -/
theorem exists_spell {text : List Char} (hcolon : ':' ∈ text) :
    ∃ parts : Parts, parts.spell = text := by
  obtain ⟨scheme, rest, hcut⟩ : ∃ scheme rest, cutFirst ':' text = some (scheme, rest) := by
    cases hcut : cutFirst ':' text with
    | none => exact absurd hcolon (cutFirst_eq_none.1 hcut)
    | some parts => exact ⟨parts.1, parts.2, rfl⟩
  obtain ⟨rfl, hscheme⟩ := cutFirst_eq_some hcut
  by_cases hslashes : ['/', '/'] <+: rest
  · obtain ⟨body, rfl⟩ := hslashes
    obtain ⟨front, query, fragment, rfl, hfront, hquery⟩ := exists_cut body
    have hsplit : (cutPath front).1 ++ (cutPath front).2 = front := List.takeWhile_append_dropWhile
    have hauthority : ∀ c ∈ (cutPath front).1, c ≠ '/' := fun c hin =>
      of_decide_eq_true (List.all_eq_true.1 List.all_takeWhile c hin)
    have hpath := head?_cutPath front
    generalize (cutPath front).1 = authority at hsplit hauthority
    generalize (cutPath front).2 = path at hsplit hpath
    subst hsplit
    refine ⟨{ scheme, authority := some authority, path, query, fragment, scheme_chars := hscheme,
              authority_chars := ?_, path_chars := ?_, path_behind := fun _ => hpath,
              path_alone := nofun, query_chars := hquery }, ?_⟩
    · exact fun c hin => ⟨hauthority c hin, hfront c (List.mem_append_left _ hin)⟩
    · exact fun c hin => hfront c (List.mem_append_right _ hin)
    · simp [spell]
  · obtain ⟨path, query, fragment, rfl, hpath, hquery⟩ := exists_cut rest
    refine ⟨{ scheme, authority := none, path, query, fragment, scheme_chars := hscheme,
              authority_chars := nofun, path_chars := hpath, path_behind := fun h => absurd rfl h,
              path_alone := fun _ hbegins => hslashes ?_, query_chars := hquery }, rfl⟩
    rw [List.append_assoc]
    exact hbegins.trans (List.prefix_append _ _)

/-- What the parser demands of the parts. -/
structure Accepted : Prop where
  /-- The scheme has two characters or more, -/
  scheme_length : 2 ≤ parts.scheme.length
  /-- all of them ASCII letters, digits, plus signs, dots or dashes. -/
  scheme_plain : ∀ c ∈ parts.scheme, c.isAlphanum = true ∨ c = '+' ∨ c = '.' ∨ c = '-'
  /-- What stands behind the last colon of an authority is nothing, or a number that fits. -/
  port : ∀ host port, parts.authority = some (host ++ ':' :: port) → ':' ∉ port →
    port = [] ∨ ∃ number, number ≤ 65535 ∧ SpellsNumber number port

/-- What is read from the parts. -/
structure Gives (uri : Uri) : Prop where
  scheme : uri.scheme = lowerCase (String.ofList parts.scheme)
  host : ∀ c ∈ uri.host.toList, c ≠ '/' ∧ c ≠ '?' ∧ c ≠ '#'
  /-- Behind an authority the path is empty or begins with a slash. -/
  path : parts.authority ≠ none → uri.localPath = "" ∨ uri.localPath.toList.head? = some '/'
  /-- Without one there is neither a host nor a port. -/
  alone : parts.authority = none → uri.host = "" ∧ uri.port = none
  /-- The pairs are read from the pieces of the query that are not empty. -/
  query : uri.query = (((parts.query.getD []).splitOn '&').filter (· ≠ [])).map readPair

theorem isScheme_iff_plain {cs : List Char} : isScheme cs = true ↔
    2 ≤ cs.length ∧ ∀ c ∈ cs, c.isAlphanum = true ∨ c = '+' ∨ c = '.' ∨ c = '-' := by
  have hchar (c : Char) : isSchemeChar c = true ↔
      c.isAlphanum = true ∨ c = '+' ∨ c = '.' ∨ c = '-' := by
    simp only [isSchemeChar, Bool.or_eq_true, decide_eq_true_eq, or_assoc, or_comm]
  simp only [isScheme_iff, hchar]

/-- Behind a scheme all is read but a port that is no number. -/
theorem read_isOk_iff : (∃ uri, parts.read = .ok uri) ↔
    ∀ host port, parts.authority = some (host ++ ':' :: port) → ':' ∉ port →
      port = [] ∨ ∃ number, number ≤ 65535 ∧ SpellsNumber number port := by
  rw [read]
  cases parts.authority with
  | none => exact ⟨fun _ _ _ heq => (nomatch heq), fun _ => ⟨_, rfl⟩⟩
  | some authority =>
    simp only [Option.some.injEq]
    rw [← readAuthority_isOk_iff]
    constructor
    · rintro ⟨uri, hread⟩
      obtain ⟨found, hfound, _⟩ := Outcome.map_eq_ok.1 hread
      exact ⟨found, hfound⟩
    · rintro ⟨found, hfound⟩
      exact ⟨_, Outcome.map_eq_ok.2 ⟨found, hfound, rfl⟩⟩

theorem readQuery_eq (cs : List Char) :
    readQuery cs = ((cs.splitOn '&').filter (· ≠ [])).map readPair := by
  rw [readQuery]
  congr 2
  funext piece
  cases piece <;> rfl

theorem Gives.of_read {uri : Uri} (h : parts.read = .ok uri) : parts.Gives uri := by
  rw [read] at h
  cases hauthority : parts.authority with
  | none =>
    simp only [hauthority] at h
    obtain rfl := Except.ok.inj h
    exact ⟨rfl, nofun, fun hsome => absurd hauthority hsome, fun _ => ⟨rfl, rfl⟩, readQuery_eq _⟩
  | some authority =>
    simp only [hauthority] at h
    obtain ⟨⟨host, port⟩, hfound, rfl⟩ := Outcome.map_eq_ok.1 h
    refine ⟨rfl, ?_, fun hsome => decode_path (parts.path_behind hsome), fun hnone => ?_,
      readQuery_eq _⟩
    · intro c hin
      rw [String.toList_ofList] at hin
      have hc := (of_readAuthority hfound).1.subset hin
      exact parts.authority_chars c (by rw [hauthority]; exact hc)
    · rw [hauthority] at hnone
      cases hnone

end Parts

/-- A text is read as a URI exactly if it has parts that are accepted, and then its parts
give all that is read. -/
theorem parse_iff (text : String) :
    ((∃ uri, parse text = .ok uri) ↔
      ∃ parts : Parts, parts.spell = text.toList ∧ parts.Accepted) ∧
    ∀ (parts : Parts) (uri : Uri), parts.spell = text.toList → parse text = .ok uri →
      parts.Accepted ∧ parts.Gives uri := by
  have hspelled (parts : Parts) (hparts : parts.spell = text.toList) :
      ((∃ uri, parse text = .ok uri) ↔ parts.Accepted) ∧
      ∀ uri, parse text = .ok uri → parts.Gives uri := by
    have hparse := parts.parse_spell
    rw [hparts, String.ofList_toList] at hparse
    rw [hparse]
    cases hscheme : isScheme parts.scheme with
    | false =>
      refine ⟨⟨fun ⟨uri, hread⟩ => ?_, fun haccepted => ?_⟩, fun uri hread => ?_⟩
      · cases hread
      · have := Parts.isScheme_iff_plain.2 ⟨haccepted.scheme_length, haccepted.scheme_plain⟩
        rw [hscheme] at this
        cases this
      · cases hread
    | true =>
      simp only [if_true]
      obtain ⟨hlength, hplain⟩ := Parts.isScheme_iff_plain.1 hscheme
      refine ⟨parts.read_isOk_iff.trans ⟨fun hport => ⟨hlength, hplain, hport⟩, (·.port)⟩, ?_⟩
      exact fun uri => .of_read parts
  refine ⟨⟨?_, ?_⟩, ?_⟩
  · rintro ⟨uri, hread⟩
    have hcolon : ':' ∈ text.toList := by
      by_contra hnone
      rw [parse, cutFirst_eq_none.2 hnone] at hread
      cases hread
    obtain ⟨parts, hparts⟩ := Parts.exists_spell hcolon
    exact ⟨parts, hparts, (hspelled parts hparts).1.1 ⟨uri, hread⟩⟩
  · rintro ⟨parts, hparts, haccepted⟩
    exact (hspelled parts hparts).1.2 haccepted
  · intro parts uri hparts hread
    exact ⟨(hspelled parts hparts).1.1 ⟨uri, hread⟩, (hspelled parts hparts).2 uri hread⟩

/-- The question mark ends the authority, and `//` and the colon behind it are of the query. -/
example : parse "AB://u:+00080?//x:y" =
    .ok { scheme := "ab", host := "u", port := some 80, query := [("//x:y", "")] } := by
  decide +kernel

end ArchiveVfs.Uri
