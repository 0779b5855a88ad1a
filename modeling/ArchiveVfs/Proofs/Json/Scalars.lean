import ArchiveVfs.Json.Printer
import ArchiveVfs.Json.Reader
import ArchiveVfs.Proofs.Text.Utf8

/-!
# Strings and numbers read back

A written string is read back character by character (`readText_written`), whether a
character stands for itself, has an escape of one letter or is written as a unit. A whole
number of 64 bits is read back if what follows it cannot belong to it
(`readNumber_toDigits`).
-/

namespace ArchiveVfs.Json

/-! ## Strings -/

section Text

variable {c : Char} {read rest later : List Char}

theorem readText_escape (h : readEscape rest = .ok (c, later)) :
    readText read ('\\' :: rest) = readText (c :: read) later := by
  rw [readText]
  split
  · rename_i fault hfault
    rw [h] at hfault
    cases hfault
  · rename_i other found hfound
    rw [h] at hfound
    obtain ⟨rfl, rfl⟩ := Prod.mk.inj (Except.ok.inj hfound)
    rfl

theorem readText_plain (hquote : c ≠ '\x22') (hslash : c ≠ '\\') (hprints : ¬ c < ' ') :
    readText read (c :: rest) = readText (c :: read) rest := by
  rw [readText.eq_4 read c rest hquote hslash, if_neg hprints]

/-- The unit that a control character is written as. -/
theorem unitValue?_control (h : c < ' ') :
    unitValue? '0' '0' (hexDigit (c.toUInt8.toNat / 16)) (hexDigit (c.toUInt8.toNat % 16))
      = some c.toNat :=
  Text.Utf8.of_toNat_lt (P := fun c => unitValue? '0' '0' (hexDigit (c.toUInt8.toNat / 16))
    (hexDigit (c.toUInt8.toNat % 16)) = some c.toNat) (by decide) h

theorem readEscape_control (h : c < ' ') :
    readEscape ('u' :: '0' :: '0' :: (hexByte c.toUInt8 ++ later)) = .ok (c, later) := by
  have hcontrol : c.toNat < 32 := h
  have hlow : isLowHalf c.toNat = false := by
    rw [isLowHalf, Bool.and_eq_false_iff, decide_eq_false_iff_not]
    left
    omega
  have hhigh : isHighHalf c.toNat = false := by
    rw [isHighHalf, Bool.and_eq_false_iff, decide_eq_false_iff_not]
    left
    omega
  simp only [hexByte, List.cons_append, List.nil_append, readEscape, readUnit,
    unitValue?_control h, hlow, hhigh, Char.ofNat_toNat]
  rfl

/-- A written character is read as that character. -/
theorem readText_charWritten (read : List Char) (c : Char) (later : List Char) :
    readText read (charWritten c ++ later) = readText (c :: read) later := by
  unfold charWritten
  split
  · exact readText_escape rfl
  · exact readText_escape rfl
  · exact readText_escape rfl
  · exact readText_escape rfl
  · exact readText_escape rfl
  · exact readText_escape rfl
  · exact readText_escape rfl
  · rename_i hquote hslash _ _ _ _ _
    split
    · rename_i hcontrol
      exact readText_escape (readEscape_control hcontrol)
    · rename_i hprints
      exact readText_plain hquote hslash hprints

theorem readText_flatMap (read content later : List Char) :
    readText read (content.flatMap charWritten ++ '\x22' :: later)
      = .ok (String.ofList (read.reverse ++ content), later) := by
  induction content generalizing read with
  | nil =>
    rw [List.flatMap_nil, List.nil_append, readText, List.append_nil]
  | cons c content ih =>
    rw [List.flatMap_cons, List.append_assoc, readText_charWritten, ih, List.reverse_cons,
      List.append_assoc]
    rfl

/-- A written string is read back behind its opening quote. -/
theorem readText_written (content : String) (later : List Char) :
    ∃ behind, stringWritten content ++ later = '\x22' :: behind ∧
      readText [] behind = .ok (content, later) := by
  refine ⟨content.toList.flatMap charWritten ++ '\x22' :: later, ?_, ?_⟩
  · simp [stringWritten]
  · rw [readText_flatMap, List.reverse_nil, List.nil_append, String.ofList_toList]

end Text

/-! ## Whole numbers -/

section Number

variable {n : Nat} {rest : List Char}

/-- What follows cannot belong to a number. -/
def EndsNumber (rest : List Char) : Prop :=
  ∀ c, rest.head? = some c → c.isDigit = false ∧ c ≠ '.' ∧ c ≠ 'e' ∧ c ≠ 'E'

/-- A number with one more digit at its end. -/
def pushDigit (value : Nat) (c : Char) : Nat :=
  10 * value + digitValue c

theorem le_foldl_pushDigit (value : Nat) (digits : List Char) :
    value ≤ digits.foldl pushDigit value := by
  induction digits generalizing value with
  | nil => exact Nat.le_refl value
  | cons c digits ih =>
    calc value ≤ pushDigit value c := by rw [pushDigit]; omega
      _ ≤ digits.foldl pushDigit (pushDigit value c) := ih _

/-- Digits whose number fits are all taken. -/
theorem takeDigits_of_lt {value : Nat} {digits : List Char}
    (h : digits.foldl pushDigit value < UInt64.size) :
    takeDigits value digits = (digits.foldl pushDigit value, 0) := by
  induction digits generalizing value with
  | nil => rfl
  | cons c digits ih =>
    have hnext : 10 * value + digitValue c < UInt64.size :=
      Nat.lt_of_le_of_lt (le_foldl_pushDigit (pushDigit value c) digits) h
    rw [takeDigits, if_pos hnext]
    exact ih h

theorem foldl_pushDigit_toDigits (n : Nat) : (Nat.toDigits 10 n).foldl pushDigit 0 = n := by
  have h := @Nat.ofDigitChars_ten_toDigits n
  rw [Nat.ofDigitChars_eq_foldl] at h
  exact h

theorem takeDigits_toDigits (hsize : n < UInt64.size) :
    takeDigits 0 (Nat.toDigits 10 n) = (n, 0) := by
  rw [takeDigits_of_lt (by rwa [foldl_pushDigit_toDigits]), foldl_pushDigit_toDigits]

/-- No number but zero begins with a zero. -/
theorem head?_toDigits (hpos : 0 < n) : (Nat.toDigits 10 n).head? ≠ some '0' := by
  induction n using Nat.strongRecOn with
  | _ n ih =>
    by_cases hless : n < 10
    · have hall : ∀ n, n < 10 → 0 < n → [n.digitChar].head? ≠ some '0' := by decide
      rw [Nat.toDigits_of_lt_base hless]
      exact hall n hless hpos
    · rw [Nat.toDigits_of_base_le (by decide) (Nat.le_of_not_lt hless),
        List.head?_append]
      have hfront := ih (n / 10) (by omega) (by omega)
      cases hdigits : Nat.toDigits 10 (n / 10) with
      | nil => exact absurd hdigits Nat.toDigits_ne_nil
      | cons d digits =>
        rw [hdigits] at hfront
        exact hfront

theorem takeWhile_digits {digits : List Char} (hdigits : ∀ c ∈ digits, c.isDigit = true)
    (hrest : EndsNumber rest) :
    (digits ++ rest).takeWhile Char.isDigit = digits ∧
    (digits ++ rest).dropWhile Char.isDigit = rest := by
  have hnone : rest.takeWhile Char.isDigit = [] ∧ rest.dropWhile Char.isDigit = rest := by
    cases rest with
    | nil => exact ⟨rfl, rfl⟩
    | cons c rest =>
      have hc := (hrest c rfl).1
      simp [hc]
  rw [List.takeWhile_append_of_pos hdigits, List.dropWhile_append_of_pos hdigits, hnone.1,
    hnone.2, List.append_nil]
  exact ⟨rfl, rfl⟩

/-- The digits of a number are its whole part. -/
theorem readWhole_toDigits (n : Nat) (hrest : EndsNumber rest) (atEnd : Complaint) :
    readWhole atEnd (Nat.toDigits 10 n ++ rest) = .ok (Nat.toDigits 10 n, rest) := by
  have hdigits : ∀ c ∈ Nat.toDigits 10 n, c.isDigit = true := by
    intro c hin
    exact Nat.isDigit_of_mem_toDigits (by decide) (by decide) hin
  cases hwritten : Nat.toDigits 10 n with
  | nil => exact absurd hwritten Nat.toDigits_ne_nil
  | cons d digits =>
    rw [hwritten] at hdigits
    by_cases hzero : d = '0'
    · -- a zero in front is the whole number
      subst hzero
      have hn : n = 0 := by
        refine Nat.eq_zero_of_not_pos fun hpos => head?_toDigits hpos ?_
        rw [hwritten]
        rfl
      subst hn
      obtain rfl : digits = [] := (List.cons.inj hwritten).2.symm
      have hnone := (takeWhile_digits (by simp) hrest : ([] ++ rest).takeWhile _ = [] ∧ _).1
      rw [List.nil_append] at hnone
      simp [readWhole, hnone]
    · have hd : d.isDigit = true := hdigits d List.mem_cons_self
      obtain ⟨htake, hdrop⟩ := takeWhile_digits hdigits hrest
      rw [List.cons_append] at htake hdrop ⊢
      rw [readWhole.eq_2 _ _ (by simpa using hzero), readDigits]
      simp only [hd, htake, hdrop]
      rfl

/-- A whole number of 64 bits is read back. -/
theorem readNumber_toDigits (hsize : n < UInt64.size) (hrest : EndsNumber rest) :
    readNumber false (Nat.toDigits 10 n ++ rest) = .ok (.natural n, rest) := by
  have hfraction : readFraction .endInValue rest = .ok (none, rest) := by
    cases rest with
    | nil => rfl
    | cons c rest =>
      have hpoint := (hrest c rfl).2.1
      rw [readFraction]
      simpa using hpoint
  have hexponent : readExponent .endInValue rest = .ok (none, rest) := by
    cases rest with
    | nil => rfl
    | cons c rest =>
      obtain ⟨_, _, hlower, hupper⟩ := hrest c rfl
      simp [readExponent, hlower, hupper]
  have hwritten : readWritten .endInValue (Nat.toDigits 10 n ++ rest)
      = .ok ({ whole := Nat.toDigits 10 n }, rest) := by
    rw [readWritten, readWhole_toDigits n hrest]
    show (readFraction .endInValue rest >>= _) = _
    rw [hfraction]
    show (readExponent .endInValue rest >>= _) = _
    rw [hexponent]
    rfl
  rw [readNumber, hwritten]
  show (Written.value { whole := Nat.toDigits 10 n } false rest >>= _) = _
  rw [Written.value]
  simp only [takeDigits_toDigits hsize]
  rfl

end Number

end ArchiveVfs.Json
