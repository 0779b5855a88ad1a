import ArchiveVfs.Proofs.Text.Utf8
import ArchiveVfs.Text.Percent

/-!
# Percent escapes both ways

A text that is written with escapes is read back (`decode_encode`), whatever characters
are reserved, as long as the percent sign and everything outside ASCII are. So it is in
front of a text without percent signs, which stands for itself (`decode_encode_append`). A
reserved character other than the percent sign and the digits of escapes is not in what
is written (`not_mem_encode`).
-/

namespace ArchiveVfs.Text.Percent

open String (utf8EncodeChar)

/-- Escapes can be told from what they stand beside. -/
structure Reserves (reserved : Char → Bool) : Prop where
  percent : reserved '%' = true
  wide : ∀ c : Char, 0x7F < c.toNat → reserved c = true

theorem isControl_of_wide {c : Char} (h : 0x7F < c.toNat) : isControl c = true := by
  rw [isControl, Bool.or_eq_true]
  exact .inr (decide_eq_true (Nat.le_of_lt h))

theorem reserves_inPath : Reserves inPath where
  percent := by decide
  wide c h := by rw [inPath, isControl_of_wide h, Bool.true_or]

theorem reserves_inQuery : Reserves inQuery where
  percent := by decide
  wide c h := by rw [inQuery, reserves_inPath.wide c h, Bool.true_or]

/-! ## One escape -/

/-- An ASCII character is one byte. -/
theorem encodeChar_ascii {c : Char} (h : c.toNat ≤ 0x7F) :
    utf8EncodeChar c = [UInt8.ofNat c.toNat] := by
  rw [Utf8.encodeChar_eq, Utf8.spelling, if_pos h]

theorem upperDigit_ascii : ∀ value, value < 16 → (upperDigit value).toNat ≤ 0x7F := by
  decide

/-- A digit that is written is read back. -/
theorem digitValue_upperDigit : ∀ value, value < 16 →
    digitValue? (UInt8.ofNat (upperDigit value).toNat) = some (UInt8.ofNat value) := by
  decide

/-- The bytes of an escape. -/
theorem encode_escape (b : UInt8) : Utf8.encode (escape b) =
    [37, UInt8.ofNat (upperDigit (b.toNat / 16)).toNat,
      UInt8.ofNat (upperDigit (b.toNat % 16)).toNat] := by
  have hb := b.toNat_lt
  have hhigh := encodeChar_ascii (upperDigit_ascii (b.toNat / 16) (by omega))
  have hlow := encodeChar_ascii (upperDigit_ascii (b.toNat % 16) (by omega))
  have hpercent : utf8EncodeChar '%' = [37] := by decide
  simp only [Utf8.encode, escape, List.flatMap_cons, List.flatMap_nil, hhigh, hlow, hpercent]
  rfl

/-- The digits of a byte spell it. -/
theorem pairValue_digits (b : UInt8) :
    pairValue? (UInt8.ofNat (upperDigit (b.toNat / 16)).toNat)
      (UInt8.ofNat (upperDigit (b.toNat % 16)).toNat) = some b := by
  have hb := b.toNat_lt
  have hsum : UInt8.ofNat (b.toNat / 16) * 16 + UInt8.ofNat (b.toNat % 16) = b := by
    apply UInt8.toNat_inj.1
    rw [UInt8.toNat_add, UInt8.toNat_mul, Utf8.toNat_ofNat (by omega), Utf8.toNat_ofNat (by omega)]
    show (b.toNat / 16 * 16 % 256 + b.toNat % 16) % 256 = b.toNat
    omega
  simp only [pairValue?, digitValue_upperDigit (b.toNat / 16) (by omega),
    digitValue_upperDigit (b.toNat % 16) (by omega), hsum]

theorem unescape_cons_of_ne {b : UInt8} (h : b ≠ 37) (rest : Bytes) :
    unescape (b :: rest) = b :: unescape rest := by
  rcases rest with _ | ⟨c, _ | ⟨d, rest⟩⟩
  · rfl
  · rfl
  · rw [unescape, if_neg h]

/-- An escape is undone, whatever stands behind it. -/
theorem unescape_escape (b : UInt8) (rest : Bytes) :
    unescape (Utf8.encode (escape b) ++ rest) = b :: unescape rest := by
  rw [encode_escape]
  show unescape (37 :: _ :: _ :: rest) = _
  rw [unescape, if_pos rfl, pairValue_digits]

/-! ## Texts -/

theorem encode_append (first second : List Char) :
    Utf8.encode (first ++ second) = Utf8.encode first ++ Utf8.encode second :=
  List.flatMap_append

/-- Escapes of several bytes are undone one after the other. -/
theorem unescape_escapes (bytes rest : Bytes) :
    unescape (Utf8.encode (bytes.flatMap escape) ++ rest) = bytes ++ unescape rest := by
  induction bytes with
  | nil => rfl
  | cons b bytes ih =>
    rw [List.flatMap_cons, encode_append, List.append_assoc, unescape_escape, ih]
    rfl

variable {reserved : Char → Bool}

theorem eq_percent {c : Char} (hascii : c.toNat ≤ 0x7F) (hbyte : UInt8.ofNat c.toNat = 37) :
    c = '%' := by
  have hnumber : c.toNat = '%'.toNat := by
    have := congrArg UInt8.toNat hbyte
    rw [Utf8.toNat_ofNat (by omega)] at this
    exact this
  rw [← Char.ofNat_toNat c, hnumber, Char.ofNat_toNat]

/-- A character that is not reserved is an ASCII character, and not the percent sign. -/
theorem Reserves.of_plain (h : Reserves reserved) {c : Char} (hplain : ¬ reserved c = true) :
    c.toNat ≤ 0x7F ∧ UInt8.ofNat c.toNat ≠ 37 := by
  have hascii : c.toNat ≤ 0x7F := Nat.le_of_not_lt fun hwide => hplain (h.wide c hwide)
  exact ⟨hascii, fun hbyte => hplain (eq_percent hascii hbyte ▸ h.percent)⟩

/-- The bytes of a written text are those of the text, escaped or not, whatever stands behind
it. -/
theorem unescape_encode (h : Reserves reserved) (cs : List Char) (rest : Bytes) :
    unescape (Utf8.encode (encode reserved cs) ++ rest) = Utf8.encode cs ++ unescape rest := by
  induction cs with
  | nil => rfl
  | cons c cs ih =>
    rw [encode, List.flatMap_cons, encode_append, List.append_assoc]
    show unescape (_ ++ (Utf8.encode (encode reserved cs) ++ rest))
      = (utf8EncodeChar c ++ Utf8.encode cs) ++ unescape rest
    split
    · rw [unescape_escapes, ih, List.append_assoc]
    · rename_i hplain
      obtain ⟨hascii, hne⟩ := h.of_plain hplain
      rw [Utf8.encode, List.flatMap_singleton, encodeChar_ascii hascii]
      show unescape (_ :: (Utf8.encode (encode reserved cs) ++ rest))
        = _ :: (Utf8.encode cs ++ unescape rest)
      rw [unescape_cons_of_ne hne, ih]

theorem unescape_of_not_mem {bytes : Bytes} (h : 37 ∉ bytes) : unescape bytes = bytes := by
  induction bytes with
  | nil => rfl
  | cons b bytes ih =>
    have hb : b ≠ 37 := (List.ne_of_not_mem_cons h).symm
    rw [unescape_cons_of_ne hb, ih (List.not_mem_of_not_mem_cons h)]

/-- Only the percent sign has its byte. -/
theorem percent_mem_encode {cs : List Char} (h : 37 ∈ Utf8.encode cs) : '%' ∈ cs := by
  obtain ⟨c, hc, hbyte⟩ := List.mem_flatMap.1 h
  have hascii : c.toNat ≤ 0x7F := by
    refine Nat.le_of_not_lt fun hwide => ?_
    exact absurd (Utf8.wide_spelling hwide 37 hbyte) (by decide)
  rw [encodeChar_ascii hascii] at hbyte
  rwa [← eq_percent hascii (List.mem_singleton.1 hbyte).symm]

/-- What is written with escapes is read back, also in front of a text without any. -/
theorem decode_encode_append (h : Reserves reserved) (cs : List Char) {plain : List Char}
    (hplain : '%' ∉ plain) : decode (encode reserved cs ++ plain) = cs ++ plain := by
  rw [decode, encode_append, unescape_encode h, unescape_of_not_mem (mt percent_mem_encode hplain),
    ← encode_append, Utf8.decodeLossy_encode]

theorem decode_encode (h : Reserves reserved) (cs : List Char) :
    decode (encode reserved cs) = cs := by
  have := decode_encode_append h cs (List.not_mem_nil (a := '%'))
  rwa [List.append_nil, List.append_nil] at this

/-! ## What is not written -/

/-- A percent sign, or a digit of an escape. -/
def isEscapeChar (c : Char) : Bool :=
  c = '%' || (List.range 16).any fun value => c = upperDigit value

theorem isEscapeChar_of_mem {b : UInt8} {c : Char} (h : c ∈ escape b) :
    isEscapeChar c = true := by
  have hb := b.toNat_lt
  have hdigit (value : Nat) (hvalue : value < 16) : isEscapeChar (upperDigit value) = true := by
    rw [isEscapeChar, Bool.or_eq_true, List.any_eq_true]
    exact .inr ⟨value, List.mem_range.2 hvalue, decide_eq_true rfl⟩
  rcases List.mem_cons.1 h with rfl | h
  · rfl
  · rcases List.mem_cons.1 h with rfl | h
    · exact hdigit _ (by omega)
    · rw [List.mem_singleton.1 h]
      exact hdigit _ (by omega)

/-- A written text has no reserved character but those of escapes. -/
theorem not_mem_encode {c : Char} (hreserved : reserved c = true) (hchar : isEscapeChar c = false)
    (cs : List Char) : c ∉ encode reserved cs := by
  intro h
  obtain ⟨d, _, hd⟩ := List.mem_flatMap.1 h
  split at hd
  · obtain ⟨b, _, hb⟩ := List.mem_flatMap.1 hd
    rw [isEscapeChar_of_mem hb] at hchar
    cases hchar
  · rename_i hplain
    rw [← List.mem_singleton.1 hd] at hplain
    exact hplain hreserved

/-- A reserved character is written with one escape or more. -/
theorem escapes_eq_cons (c : Char) :
    ∃ digits, (utf8EncodeChar c).flatMap escape = '%' :: digits := by
  obtain ⟨b, bytes, hbytes⟩ := List.exists_cons_of_length_pos
    (String.length_utf8EncodeChar c ▸ Char.utf8Size_pos c)
  rw [hbytes]
  exact ⟨_, rfl⟩

/-- A written text begins with what the text begins with, or with an escape. -/
theorem head?_encode (reserved : Char → Bool) (c : Char) (cs : List Char) :
    (encode reserved (c :: cs)).head? = some (if reserved c then '%' else c) := by
  rw [encode, List.flatMap_cons]
  split
  · obtain ⟨digits, hdigits⟩ := escapes_eq_cons c
    rw [hdigits]
    rfl
  · rfl

/-- A written text ends with a character that is no part of escapes exactly if the text does. -/
theorem getLast?_encode {c : Char} (hplain : reserved c = false) (hchar : isEscapeChar c = false)
    (cs : List Char) : (encode reserved cs).getLast? = some c ↔ cs.getLast? = some c := by
  rcases List.eq_nil_or_concat cs with rfl | ⟨front, last, rfl⟩
  · exact Iff.rfl
  · rw [encode, List.concat_eq_append, List.flatMap_append, List.flatMap_singleton,
      List.getLast?_concat, Option.some.injEq]
    split
    next hreserved =>
      obtain ⟨digits, hdigits⟩ := escapes_eq_cons last
      -- of the two parts the second one is not empty
      rw [hdigits, List.getLast?_append, List.getLast?_cons, Option.some_or, ← List.getLast?_cons]
      constructor
      · intro hlast
        obtain ⟨b, _, hb⟩ := List.mem_flatMap.1 (hdigits ▸ List.mem_of_getLast? hlast)
        rw [isEscapeChar_of_mem hb] at hchar
        cases hchar
      · rintro rfl
        rw [hplain] at hreserved
        cases hreserved
    next => rw [List.getLast?_concat, Option.some.injEq]

end ArchiveVfs.Text.Percent
