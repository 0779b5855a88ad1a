import Mathlib.Data.List.Basic
import ArchiveVfs.Proofs.Outcome
import ArchiveVfs.Proofs.Text.Cut
import ArchiveVfs.Proofs.Text.Percent
import ArchiveVfs.Uri.Parser
import ArchiveVfs.Uri.Printer

/-!
# URIs both ways

Every URI that has been read is `Readable`. Its written form is read back as the
same URI except in one case: without a port, the last colon of the host is taken
for the one before a port (`parse_render_iff`, `parse_render_of_parse`).
-/

namespace ArchiveVfs.Uri

open Text

/-- A character of schemes in lower case. -/
def isLowerSchemeChar (c : Char) : Bool :=
  c.isLower || c.isDigit || c = '+' || c = '-' || c = '.'

/-- What holds of every URI that has been read. -/
structure Readable (uri : Uri) : Prop where
  schemeLength : 2 ≤ uri.scheme.toList.length
  schemeChars : ∀ c ∈ uri.scheme.toList, isLowerSchemeChar c = true
  hostChars : ∀ c ∈ uri.host.toList, c ≠ '/' ∧ c ≠ '?' ∧ c ≠ '#'
  path : uri.localPath = "" ∨ uri.localPath.toList.head? = some '/' ∨
    (uri.host = "" ∧ uri.port = none)

/-- What can be written and read back: no colon of the host looks like that of a port. -/
structure Printable (uri : Uri) : Prop extends Readable uri where
  hostColon : uri.port = none → ':' ∉ uri.host.toList

/-! ## Schemes -/

section Scheme

variable {c : Char}

theorem ascii_of_isSchemeChar (h : isSchemeChar c = true) : c.toNat < 128 := by
  unfold isSchemeChar Char.isAlphanum Char.isAlpha Char.isUpper Char.isLower Char.isDigit at h
  simp only [Bool.or_eq_true, Bool.and_eq_true, decide_eq_true_eq, UInt32.le_iff_toNat_le,
    ge_iff_le] at h
  rcases h with (((((h | h) | h) | rfl) | rfl) | rfl)
  · exact Nat.lt_of_le_of_lt h.2 (by decide)
  · exact Nat.lt_of_le_of_lt h.2 (by decide)
  · exact Nat.lt_of_le_of_lt h.2 (by decide)
  all_goals decide

theorem isSchemeChar_of_lower (h : isLowerSchemeChar c = true) : isSchemeChar c = true := by
  unfold isLowerSchemeChar at h
  unfold isSchemeChar Char.isAlphanum Char.isAlpha
  simp only [Bool.or_eq_true] at h ⊢
  rcases h with (((h | h) | h) | h) | h
  · exact .inl (.inl (.inl (.inl (.inr h))))
  · exact .inl (.inl (.inl (.inr h)))
  · exact .inl (.inl (.inr h))
  · exact .inl (.inr h)
  · exact .inr h

theorem isLowerSchemeChar_toLower (h : isSchemeChar c = true) :
    isLowerSchemeChar c.toLower = true :=
  Utf8.of_toNat_lt (P := fun c => isSchemeChar c = true → isLowerSchemeChar c.toLower = true)
    (by decide) (ascii_of_isSchemeChar h) h

theorem toLower_of_lower (h : isLowerSchemeChar c = true) : c.toLower = c :=
  Utf8.of_toNat_lt (P := fun c => isLowerSchemeChar c = true → c.toLower = c)
    (by decide) (ascii_of_isSchemeChar (isSchemeChar_of_lower h)) h

theorem isScheme_iff {cs : List Char} :
    isScheme cs = true ↔ 2 ≤ cs.length ∧ ∀ c ∈ cs, isSchemeChar c = true := by
  rw [isScheme, Bool.and_eq_true, decide_eq_true_iff, List.all_eq_true]

theorem lowerCase_of_lower {s : String} (h : ∀ c ∈ s.toList, isLowerSchemeChar c = true) :
    lowerCase s = s := by
  have hsame : s.toList.map Char.toLower = s.toList := by
    rw [List.map_congr_left fun c hin => toLower_of_lower (h c hin), List.map_id']
  rw [lowerCase, hsame, String.ofList_toList]

end Scheme

/-! ## Ports -/

section Port

variable {c : Char}

theorem isDigit_of_mem_portChars {port : Option UInt16} (h : c ∈ portChars port) :
    c = ':' ∨ c.isDigit = true := by
  cases port with
  | none => cases h
  | some port =>
    rcases List.mem_cons.1 h with rfl | h
    · exact .inl rfl
    · exact .inr (Nat.isDigit_of_mem_toDigits (by decide) (by decide) h)

theorem digitsValue_toDigits (n : Nat) : digitsValue (Nat.toDigits 10 n) = n := by
  have h := Nat.ofDigitChars_toDigits (b := 10) (n := n) (by decide) (by decide)
  rw [Nat.ofDigitChars_eq_foldl] at h
  simp only [Nat.mul_comm 10] at h
  exact h

/-- A written port is read back. -/
theorem portValue_toDigits (port : UInt16) :
    portValue? (Nat.toDigits 10 port.toNat) = some port := by
  have hdigit : ∀ c ∈ Nat.toDigits 10 port.toNat, c.isDigit = true := fun c hin =>
    Nat.isDigit_of_mem_toDigits (by decide) (by decide) hin
  have hhead : (Nat.toDigits 10 port.toNat).head? ≠ some '+' := by
    intro h
    have := hdigit '+' (List.mem_of_head? h)
    cases this
  have hall : (Nat.toDigits 10 port.toNat).all Char.isDigit = true := List.all_eq_true.2 hdigit
  have hbound := port.toNat_lt
  simp only [portValue?, if_neg hhead, digitsValue_toDigits, hall]
  rw [if_pos]
  · rw [UInt16.ofNat_toNat]
  · simp only [Bool.and_true, Bool.and_eq_true, Bool.not_eq_true', List.isEmpty_eq_false_iff,
      decide_eq_true_eq]
    exact ⟨Nat.toDigits_ne_nil, by omega⟩

/-- A written authority is read back, if no colon of the host looks like that of a
port. -/
theorem readAuthority_written {host : List Char} {port : Option UInt16}
    (h : port = none → ':' ∉ host) :
    readAuthority (host ++ portChars port) = .ok (host, port) := by
  cases port with
  | none =>
    have hcut := cutLast_eq_none.2 (h rfl)
    simp only [portChars, List.append_nil, readAuthority, hcut]
  | some port =>
    have hcolon : ':' ∉ Nat.toDigits 10 port.toNat := by
      intro hin
      have := Nat.isDigit_of_mem_toDigits (by decide) (by decide) hin
      cases this
    have hcut : cutLast ':' (host ++ ':' :: Nat.toDigits 10 port.toNat) = some (host, _) :=
      cutLast_append hcolon
    simp only [portChars, readAuthority, hcut]
    cases hdigits : Nat.toDigits 10 port.toNat with
    | nil => exact absurd hdigits Nat.toDigits_ne_nil
    | cons c digits =>
      have hvalue := portValue_toDigits port
      rw [hdigits] at hvalue
      simp only [hvalue]

/-- The host that is read is the text before the last colon, or all of it. -/
theorem of_readAuthority {authority host : List Char} {port : Option UInt16}
    (h : readAuthority authority = .ok (host, port)) :
    host <+: authority ∧ (':' ∈ authority → host.length < authority.length) := by
  rw [readAuthority] at h
  cases hcut : cutLast ':' authority with
  | none =>
    rw [hcut] at h
    obtain ⟨rfl, rfl⟩ := Prod.mk.inj (Except.ok.inj h)
    exact ⟨List.prefix_rfl, fun hin => absurd hin (cutLast_eq_none.1 hcut)⟩
  | some parts =>
    obtain ⟨before, after⟩ := parts
    obtain ⟨rfl, _⟩ := cutLast_eq_some hcut
    have hhost : before = host := by
      rw [hcut] at h
      cases after with
      | nil => exact (Prod.mk.inj (Except.ok.inj h)).1
      | cons c after =>
        cases hvalue : portValue? (c :: after) with
        | none =>
          simp only [hvalue] at h
          cases h
        | some value =>
          simp only [hvalue] at h
          exact (Prod.mk.inj (Except.ok.inj h)).1
    subst hhost
    refine ⟨List.prefix_append _ _, fun _ => ?_⟩
    rw [List.length_append, List.length_cons]
    omega

end Port

/-! ## Queries and fragments -/

section Parts

theorem cutOff_append {sep : Char} {before after : List Char} (h : sep ∉ before) :
    cutOff sep (before ++ sep :: after) = (before, some after) := by
  rw [cutOff, cutFirst_append h]

theorem cutOff_of_not_mem {sep : Char} {cs : List Char} (h : sep ∉ cs) :
    cutOff sep cs = (cs, none) := by
  rw [cutOff, cutFirst_eq_none.2 h]

/-- What is left before a separator is a part of the text without it. -/
theorem of_cutOff (sep : Char) (cs : List Char) :
    (cutOff sep cs).1 <+: cs ∧ sep ∉ (cutOff sep cs).1 := by
  rw [cutOff]
  cases hcut : cutFirst sep cs with
  | none => exact ⟨List.prefix_rfl, cutFirst_eq_none.1 hcut⟩
  | some parts =>
    obtain ⟨before, after⟩ := parts
    obtain ⟨rfl, hnot⟩ := cutFirst_eq_some hcut
    exact ⟨List.prefix_append _ _, hnot⟩

theorem cutOff_fragmentChars {body : List Char} (h : '#' ∉ body) (fragment : Option String) :
    ∃ written, cutOff '#' (body ++ fragmentChars fragment) = (body, written) ∧
      (written.map fun cs => String.ofList (Percent.decode cs)) = fragment := by
  cases fragment with
  | none =>
    refine ⟨none, ?_, rfl⟩
    rw [fragmentChars, List.append_nil, cutOff_of_not_mem h]
  | some fragment =>
    refine ⟨_, cutOff_append h, ?_⟩
    rw [Option.map_some, Percent.decode_encode Percent.reserves_inPath, String.ofList_toList]

theorem readPair_pairChars (pair : String × String) : readPair (pairChars pair) = pair := by
  have hkey : '=' ∉ Percent.encode Percent.inQuery pair.1.toList :=
    Percent.not_mem_encode (by decide) (by decide) _
  rw [readPair, pairChars, cutFirst_append hkey]
  simp only [Percent.decode_encode Percent.reserves_inQuery, String.ofList_toList]

/-- A written pair holds no separator but its own. -/
theorem not_mem_pairChars {c : Char} (hreserved : Percent.inQuery c = true)
    (hchar : Percent.isEscapeChar c = false) (hother : c ≠ '=') (pair : String × String) :
    c ∉ pairChars pair := by
  have hkey := Percent.not_mem_encode hreserved hchar pair.1.toList
  have hvalue := Percent.not_mem_encode hreserved hchar pair.2.toList
  simp [pairChars, hkey, hvalue, hother]

theorem number_not_mem_queryChars (query : List (String × String)) : '#' ∉ queryChars query := by
  cases query with
  | nil => exact List.not_mem_nil
  | cons pair query =>
    intro h
    rcases List.mem_cons.1 h with heq | h
    · cases heq
    · rcases of_mem_intercalate h with heq | ⟨part, hpart, hc⟩
      · cases heq
      · obtain ⟨other, _, rfl⟩ := List.mem_map.1 hpart
        exact not_mem_pairChars (by decide) (by decide) (by decide) other hc

theorem readQuery_intercalate {pairs : List (String × String)} (hsome : pairs ≠ []) :
    readQuery (['&'].intercalate (pairs.map pairChars)) = pairs := by
  have hpieces : (['&'].intercalate (pairs.map pairChars)).splitOn '&' = pairs.map pairChars := by
    apply List.splitOn_intercalate
    · intro part hpart
      obtain ⟨pair, _, rfl⟩ := List.mem_map.1 hpart
      exact not_mem_pairChars (by decide) (by decide) (by decide) pair
    · simpa using hsome
  -- a written pair has its equals sign, so none is skipped
  have hkeep : (pairs.map pairChars).filter (fun piece => !piece.isEmpty)
      = pairs.map pairChars := by
    apply List.filter_eq_self.2
    intro part hpart
    obtain ⟨pair, _, rfl⟩ := List.mem_map.1 hpart
    simp [pairChars]
  have hpairs : readPair ∘ pairChars = id := funext readPair_pairChars
  rw [readQuery, hpieces, hkeep, List.map_map, hpairs, List.map_id]

theorem cutOff_queryChars {body : List Char} (h : '?' ∉ body) (query : List (String × String)) :
    ∃ written, cutOff '?' (body ++ queryChars query) = (body, written) ∧
      readQuery (written.getD []) = query := by
  cases query with
  | nil =>
    refine ⟨none, ?_, rfl⟩
    rw [queryChars, List.append_nil, cutOff_of_not_mem h]
  | cons pair query =>
    exact ⟨_, cutOff_append h, readQuery_intercalate (List.cons_ne_nil _ _)⟩

end Parts

/-! ## Behind the scheme -/

section Rest

variable {path : List Char}

theorem not_mem_encode_path {c : Char} (hreserved : Percent.inPath c = true)
    (hchar : Percent.isEscapeChar c = false) {front : List Char} (hfront : c ∉ front) :
    c ∉ front ++ Percent.encode Percent.inPath path := by
  intro h
  rcases List.mem_append.1 h with h | h
  · exact hfront h
  · exact Percent.not_mem_encode hreserved hchar path h

/-- The path begins at the first slash behind the authority. -/
theorem cutPath_append {authority : List Char} (hslash : '/' ∉ authority)
    (hpath : path = [] ∨ path.head? = some '/') :
    cutPath (authority ++ path) = (authority, path) := by
  have hall : ∀ c ∈ authority, decide (c ≠ '/') = true := fun c hin =>
    decide_eq_true fun heq => hslash (heq ▸ hin)
  rw [cutPath, List.takeWhile_append_of_pos hall, List.dropWhile_append_of_pos hall]
  cases path with
  | nil => simp
  | cons c rest =>
    obtain rfl : c = '/' := by simpa using hpath
    simp

/-- An escaped path begins as the path does. -/
theorem cutPath_written {authority : List Char} (hslash : '/' ∉ authority)
    (hpath : path = [] ∨ path.head? = some '/') :
    cutPath (authority ++ Percent.encode Percent.inPath path)
      = (authority, Percent.encode Percent.inPath path) := by
  apply cutPath_append hslash
  cases path with
  | nil => exact .inl rfl
  | cons c rest =>
    obtain rfl : c = '/' := by simpa using hpath
    exact .inr (Percent.head?_encode Percent.inPath '/' rest)

/-- Behind an authority, the path, the query and the fragment are read back. -/
theorem readRest_authority (scheme : List Char) {authority : List Char}
    (hchars : ∀ c ∈ authority, c ≠ '/' ∧ c ≠ '?' ∧ c ≠ '#')
    (hpath : path = [] ∨ path.head? = some '/') (query : List (String × String))
    (fragment : Option String) :
    readRest scheme ('/' :: '/' :: (authority ++ Percent.encode Percent.inPath path
        ++ queryChars query ++ fragmentChars fragment))
      = (readAuthority authority).map fun parts =>
        { scheme := lowerCase (String.ofList scheme)
          host := String.ofList parts.1
          port := parts.2
          localPath := String.ofList path
          query
          fragment } := by
  have hslash : '/' ∉ authority := fun hin => (hchars _ hin).1 rfl
  have hmark : '?' ∉ authority ++ Percent.encode Percent.inPath path :=
    not_mem_encode_path (by decide) (by decide) fun hin => (hchars _ hin).2.1 rfl
  have hnumber : '#' ∉ authority ++ Percent.encode Percent.inPath path :=
    not_mem_encode_path (by decide) (by decide) fun hin => (hchars _ hin).2.2 rfl
  have hnumber' : '#' ∉ authority ++ Percent.encode Percent.inPath path ++ queryChars query := by
    intro h
    rcases List.mem_append.1 h with h | h
    · exact hnumber h
    · exact number_not_mem_queryChars query h
  obtain ⟨writtenFragment, hcut, hfragment⟩ := cutOff_fragmentChars hnumber' fragment
  obtain ⟨writtenQuery, hcut', hquery⟩ := cutOff_queryChars hmark query
  have hslashes (rest : List Char) : ['/', '/'].isPrefixOf ('/' :: '/' :: rest) = true := rfl
  simp only [readRest, hslashes, if_true, List.drop_succ_cons, List.drop_zero, hcut, hcut',
    cutPath_written hslash hpath, hquery, hfragment, Percent.decode_encode Percent.reserves_inPath]

/-- A path that begins with no slash is read back without an authority. -/
theorem readRest_opaque (scheme : List Char) (hsome : path ≠ []) (hhead : path.head? ≠ some '/')
    (query : List (String × String)) (fragment : Option String) :
    readRest scheme (Percent.encode Percent.inPath path ++ queryChars query
        ++ fragmentChars fragment)
      = .ok
        { scheme := lowerCase (String.ofList scheme)
          localPath := String.ofList path
          query
          fragment } := by
  have hmark : '?' ∉ Percent.encode Percent.inPath path :=
    Percent.not_mem_encode (by decide) (by decide) path
  have hnumber : '#' ∉ Percent.encode Percent.inPath path :=
    Percent.not_mem_encode (by decide) (by decide) path
  have hnumber' : '#' ∉ Percent.encode Percent.inPath path ++ queryChars query := by
    intro h
    rcases List.mem_append.1 h with h | h
    · exact hnumber h
    · exact number_not_mem_queryChars query h
  obtain ⟨writtenFragment, hcut, hfragment⟩ := cutOff_fragmentChars hnumber' fragment
  obtain ⟨writtenQuery, hcut', hquery⟩ := cutOff_queryChars hmark query
  have hslashes : ['/', '/'].isPrefixOf (Percent.encode Percent.inPath path ++ queryChars query
      ++ fragmentChars fragment) = false := by
    obtain ⟨c, rest, rfl⟩ := List.exists_cons_of_ne_nil hsome
    have hfirst := Percent.head?_encode Percent.inPath c rest
    have hc : c ≠ '/' := fun heq => hhead (by rw [heq]; rfl)
    cases hwritten : Percent.encode Percent.inPath (c :: rest) with
    | nil =>
      rw [hwritten] at hfirst
      cases hfirst
    | cons d more =>
      rw [hwritten] at hfirst
      obtain rfl := Option.some.inj hfirst
      have hd : '/' ≠ if Percent.inPath c = true then '%' else c := by
        split
        · decide
        · exact hc.symm
      simp [List.isPrefixOf, hd]
  simp only [readRest, hslashes, Bool.false_eq_true, if_false, hcut, hcut', hquery, hfragment,
    Percent.decode_encode Percent.reserves_inPath]

end Rest

/-! ## What has been read -/

/-- A path that begins with a slash still does when its escapes are undone. -/
theorem decode_slash (rest : List Char) :
    ∃ more, Percent.decode ('/' :: rest) = '/' :: more := by
  have hbytes : Utf8.encode ('/' :: rest) = 47 :: Utf8.encode rest := rfl
  have hstep (bytes : Bytes) : Utf8.step (47 :: bytes) = .char '/' 1 bytes :=
    Utf8.step_one (by decide)
  rw [Percent.decode, hbytes, Percent.unescape_cons_of_ne (by decide), Utf8.decodeLossy,
    Utf8.decodeLossyFrom_char (hstep _)]
  exact Utf8.decodeLossyFrom_eq ['/'] _

/-- What is cut off as the path is nothing or begins with a slash. -/
theorem head?_cutPath (cs : List Char) :
    (cutPath cs).2 = [] ∨ (cutPath cs).2.head? = some '/' := by
  have hfirst := List.head?_dropWhile_not (fun c => decide (c ≠ '/')) cs
  rw [cutPath]
  cases hpath : cs.dropWhile fun c => decide (c ≠ '/') with
  | nil => exact .inl rfl
  | cons c path =>
    rw [hpath] at hfirst
    exact .inr (by simpa using hfirst)

/-- So is what is read from it. -/
theorem decode_path {path : List Char} (hpath : path = [] ∨ path.head? = some '/') :
    String.ofList (Percent.decode path) = "" ∨
    (String.ofList (Percent.decode path)).toList.head? = some '/' := by
  cases path with
  | nil => exact .inl (congrArg String.ofList (Percent.decode_encode Percent.reserves_inPath []))
  | cons c rest =>
    obtain rfl : c = '/' := by simpa using hpath
    obtain ⟨more, hmore⟩ := decode_slash rest
    rw [hmore, String.toList_ofList]
    exact .inr rfl

/-- The host that is read holds none of the separators behind it. -/
theorem host_of_readAuthority {body host : List Char} {port : Option UInt16}
    (h : readAuthority (cutPath (cutOff '?' (cutOff '#' body).1).1).1 = .ok (host, port)) :
    ∀ c ∈ host, c ≠ '/' ∧ c ≠ '?' ∧ c ≠ '#' := by
  intro c hin
  obtain ⟨hpart, _⟩ := of_readAuthority h
  have hc := hpart.subset hin
  obtain ⟨hquery, hmark⟩ := of_cutOff '?' (cutOff '#' body).1
  obtain ⟨_, hnumber⟩ := of_cutOff '#' body
  have hbody := (List.takeWhile_prefix _).subset hc
  refine ⟨?_, fun heq => hmark (heq ▸ hbody), fun heq => hnumber (heq ▸ hquery.subset hbody)⟩
  have hall := List.all_takeWhile (p := fun c => decide (c ≠ '/'))
    (l := (cutOff '?' (cutOff '#' body).1).1)
  exact of_decide_eq_true (List.all_eq_true.1 hall c hc)

theorem Readable.of_readRest {scheme rest : List Char} {uri : Uri}
    (hscheme : isScheme scheme = true)
    (h : readRest scheme rest = .ok uri) : uri.Readable := by
  obtain ⟨hlength, hchars⟩ := isScheme_iff.1 hscheme
  have hschemeLength : 2 ≤ (lowerCase (String.ofList scheme)).toList.length := by
    rw [lowerCase, String.toList_ofList, String.toList_ofList, List.length_map]
    exact hlength
  have hschemeChars : ∀ c ∈ (lowerCase (String.ofList scheme)).toList,
      isLowerSchemeChar c = true := by
    intro c hin
    rw [lowerCase, String.toList_ofList, String.toList_ofList] at hin
    obtain ⟨d, hd, rfl⟩ := List.mem_map.1 hin
    exact isLowerSchemeChar_toLower (hchars d hd)
  simp only [readRest] at h
  split at h
  · obtain ⟨⟨host, port⟩, hread, rfl⟩ := Outcome.map_eq_ok.1 h
    refine ⟨hschemeLength, hschemeChars, ?_, ?_⟩
    · show ∀ c ∈ (String.ofList host).toList, _
      rw [String.toList_ofList]
      exact host_of_readAuthority hread
    · rcases decode_path (head?_cutPath (cutOff '?' (cutOff '#' (rest.drop 2)).1).1) with
        hempty | hslash
      · exact .inl hempty
      · exact .inr (.inl hslash)
  · obtain rfl := Except.ok.inj h
    exact ⟨hschemeLength, hschemeChars, nofun, .inr (.inr ⟨rfl, rfl⟩)⟩

theorem Readable.of_parse {text : String} {uri : Uri} (h : parse text = .ok uri) :
    uri.Readable := by
  rw [parse] at h
  split at h
  · cases h
  · split at h
    · rename_i hscheme
      exact .of_readRest hscheme h
    · cases h

/-! ## Written and read again -/

section Written

variable {uri : Uri}

/-- The written form begins with the scheme and a colon. -/
theorem Readable.toList_render (h : uri.Readable) : uri.render.toList
    = uri.scheme.toList ++ ':' :: (uri.authorityChars.tail
        ++ Percent.encode Percent.inPath uri.localPath.toList
        ++ queryChars uri.query ++ fragmentChars uri.fragment) := by
  have hsome : uri.isEmpty = false := by
    have hlength := h.schemeLength
    rw [isEmpty]
    cases hs : uri.scheme.toList with
    | nil =>
      rw [hs] at hlength
      cases hlength
    | cons c cs => rfl
  have hhead : uri.authorityChars = ':' :: uri.authorityChars.tail := by
    rw [authorityChars]
    split <;> rfl
  rw [render, String.toList_ofList, renderChars, hsome, hhead]
  simp

/-- Of the written form, the scheme is read first. -/
theorem Readable.parse_render (h : uri.Readable) : parse uri.render
    = readRest uri.scheme.toList (uri.authorityChars.tail
        ++ Percent.encode Percent.inPath uri.localPath.toList
        ++ queryChars uri.query ++ fragmentChars uri.fragment) := by
  have hscheme : isScheme uri.scheme.toList = true :=
    isScheme_iff.2 ⟨h.schemeLength, fun c hin => isSchemeChar_of_lower (h.schemeChars c hin)⟩
  have hcolon : ':' ∉ uri.scheme.toList := by
    intro hin
    have := h.schemeChars ':' hin
    cases this
  rw [parse, h.toList_render, cutFirst_append hcolon]
  simp only [hscheme, if_true]

theorem hasAuthority_iff : uri.hasAuthority = true ↔
    uri.host ≠ "" ∨ uri.port ≠ none ∨ uri.localPath = "" ∨
      uri.localPath.toList.head? = some '/' := by
  have hempty (s : String) : s.toList.isEmpty = true ↔ s = "" := by
    rw [List.isEmpty_iff, String.toList_eq_nil_iff]
  rw [hasAuthority, Bool.or_eq_true, Bool.or_eq_true, Bool.or_eq_true, Bool.not_eq_true',
    ← Bool.not_eq_true, hempty, hempty, Option.isSome_iff_ne_none, decide_eq_true_iff, or_assoc,
    or_assoc]

/-- With an authority, all depends on how that is read. -/
theorem Readable.parse_render_authority (h : uri.Readable) (hauthority : uri.hasAuthority = true) :
    parse uri.render = (readAuthority (uri.host.toList ++ portChars uri.port)).map fun parts =>
      { uri with host := String.ofList parts.1, port := parts.2 } := by
  have hchars : ∀ c ∈ uri.host.toList ++ portChars uri.port, c ≠ '/' ∧ c ≠ '?' ∧ c ≠ '#' := by
    intro c hin
    rcases List.mem_append.1 hin with hin | hin
    · exact h.hostChars c hin
    · have hne (d : Char) (hcolon : d ≠ ':') (hdigit : d.isDigit = false) : c ≠ d := by
        rintro rfl
        rcases isDigit_of_mem_portChars hin with heq | heq
        · exact hcolon heq
        · rw [hdigit] at heq
          cases heq
      exact ⟨hne '/' (by decide) rfl, hne '?' (by decide) rfl, hne '#' (by decide) rfl⟩
  have hpath : uri.localPath.toList = [] ∨ uri.localPath.toList.head? = some '/' := by
    rcases hasAuthority_iff.1 hauthority with hhost | hport | hempty | hslash
    · rcases h.path with hempty | hslash | ⟨hnone, _⟩
      · exact .inl (String.toList_eq_nil_iff.2 hempty)
      · exact .inr hslash
      · exact absurd hnone hhost
    · rcases h.path with hempty | hslash | ⟨_, hnone⟩
      · exact .inl (String.toList_eq_nil_iff.2 hempty)
      · exact .inr hslash
      · exact absurd hnone hport
    · exact .inl (String.toList_eq_nil_iff.2 hempty)
    · exact .inr hslash
  have hread := readRest_authority uri.scheme.toList hchars hpath uri.query uri.fragment
  have hwritten : uri.authorityChars.tail
      = '/' :: '/' :: (uri.host.toList ++ portChars uri.port) := by
    rw [authorityChars, if_pos hauthority]
    rfl
  rw [h.parse_render, hwritten]
  simp only [String.ofList_toList, lowerCase_of_lower h.schemeChars] at hread
  exact hread

theorem Readable.parse_render_opaque (h : uri.Readable) (hauthority : uri.hasAuthority = false) :
    parse uri.render = .ok uri := by
  have hnone := mt hasAuthority_iff.2 (Bool.eq_false_iff.1 hauthority)
  simp only [not_or, ne_eq, Decidable.not_not] at hnone
  obtain ⟨hhost, hport, hpath, hslash⟩ := hnone
  have hwritten : uri.authorityChars.tail = [] := by
    rw [authorityChars, hauthority]
    rfl
  have hread := readRest_opaque uri.scheme.toList
    (fun hnil => hpath (String.toList_eq_nil_iff.1 hnil)) hslash uri.query uri.fragment
  rw [h.parse_render, hwritten, List.nil_append, hread]
  simp only [String.ofList_toList, lowerCase_of_lower h.schemeChars]
  obtain ⟨scheme, host, port, localPath, query, fragment⟩ := uri
  obtain rfl : host = "" := hhost
  obtain rfl : port = none := hport
  rfl

theorem Printable.parse_render (h : uri.Printable) : parse uri.render = .ok uri := by
  cases hauthority : uri.hasAuthority with
  | false => exact h.parse_render_opaque hauthority
  | true =>
    rw [h.parse_render_authority hauthority, readAuthority_written h.hostColon]
    show Except.ok { uri with host := String.ofList uri.host.toList, port := uri.port } = _
    rw [String.ofList_toList]

/-- The host that is read back ends before its last colon if there is no port. -/
theorem Readable.hostColon (h : uri.Readable) (hsame : parse uri.render = .ok uri) :
    uri.port = none → ':' ∉ uri.host.toList := by
  intro hport hcolon
  have hauthority : uri.hasAuthority = true :=
    hasAuthority_iff.2 (.inl fun hempty => by simp [hempty] at hcolon)
  rw [h.parse_render_authority hauthority, hport, portChars, List.append_nil] at hsame
  obtain ⟨⟨host, port⟩, hread, heq⟩ := Outcome.map_eq_ok.1 hsame
  have hshort := (of_readAuthority hread).2 hcolon
  have hhost : uri.host.toList = host := by rw [← heq, String.toList_ofList]
  rw [hhost] at hshort
  exact Nat.lt_irrefl _ hshort

/-- Exactly the URIs whose parts the written form keeps apart are read back
from it. -/
theorem parse_render_iff (uri : Uri) : parse uri.render = .ok uri ↔ uri.Printable := by
  constructor
  · intro h
    have hreadable := Readable.of_parse h
    exact ⟨hreadable, hreadable.hostColon h⟩
  · exact Printable.parse_render

/-- What has been read is read back from its written form, in all parts, unless it has no
port and a colon in its host. -/
theorem parse_render_of_parse {text : String} (h : parse text = .ok uri) :
    parse uri.render = .ok uri ↔ (uri.port = none → ':' ∉ uri.host.toList) := by
  have hreadable := Readable.of_parse h
  constructor
  · exact hreadable.hostColon
  · intro hcolon
    exact Printable.parse_render ⟨hreadable, hcolon⟩

/-- Every kind of part, with escapes in most of them and a port behind a host with a
colon. -/
theorem parse_render_of_parse_full :
    let text := "ZIP://a:b:+0080/x%20y%2F%3f//z?f%3Dg=1%26&&h&=#t%23 u"
    ∃ uri, parse text = .ok uri ∧ uri.host = "a:b" ∧ uri.port = some 80 ∧
      uri.localPath = "/x y/?//z" ∧ uri.query = [("f=g", "1&"), ("h", ""), ("", "")] ∧
      uri.fragment = some "t# u" ∧ parse uri.render = .ok uri := by
  intro text
  let uri : Uri :=
    { scheme := "zip", host := "a:b", port := some 80, localPath := "/x y/?//z"
      query := [("f=g", "1&"), ("h", ""), ("", "")], fragment := some "t# u" }
  have hread : parse text = .ok uri := by decide +kernel
  exact ⟨uri, hread, rfl, rfl, rfl, rfl, rfl, (parse_render_of_parse hread).2 nofun⟩

/-- Behind a host with a colon the colon before an empty port is lost, and what is left
of the authority is no host with a port. -/
theorem parse_render_empty_port :
    parse "file://a:b:/x" = .ok { scheme := "file", host := "a:b", localPath := "/x" } ∧
    ({ scheme := "file", host := "a:b", localPath := "/x" } : Uri).render = "file://a:b/x" ∧
    parse "file://a:b/x" = .error .badPort := by
  decide +kernel

end Written

end ArchiveVfs.Uri
