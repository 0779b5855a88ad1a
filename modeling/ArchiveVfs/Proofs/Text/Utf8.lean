import ArchiveVfs.Text.Utf8

/-!
# UTF-8 both ways

What is written is read back (`decode_encode`), and what can be read is what the text
read is written as (`encode_of_decode`). Both come from the step, which finds a
character at the front of the data exactly where the bytes of that character stand
(`step_encodeChar`, `eq_of_step`).
-/

namespace ArchiveVfs.Text.Utf8

open String (utf8EncodeChar)

/-! ## Characters and bytes by their numbers -/

/-- What holds of the characters of all numbers below a bound holds of every character below
it. -/
theorem of_toNat_lt {P : Char → Prop} {bound : Nat} (h : ∀ n, n < bound → P (Char.ofNat n))
    {c : Char} (hc : c.toNat < bound) : P c := by
  have hchar := h c.toNat hc
  rwa [Char.ofNat_toNat] at hchar

theorem within_iff {low high b : UInt8} : (decide (low ≤ b) && decide (b ≤ high)) = true ↔
    low.toNat ≤ b.toNat ∧ b.toNat ≤ high.toNat := by
  rw [Bool.and_eq_true, decide_eq_true_iff, decide_eq_true_iff, UInt8.le_iff_toNat_le,
    UInt8.le_iff_toNat_le]

theorem isContinuation_iff {b : UInt8} :
    isContinuation b = true ↔ 0x80 ≤ b.toNat ∧ b.toNat ≤ 0xBF :=
  within_iff

theorem isSecondOfThree_iff {a b : UInt8} : isSecondOfThree a b = true ↔
    0x80 ≤ b.toNat ∧ b.toNat ≤ 0xBF ∧ (a.toNat = 0xE0 → 0xA0 ≤ b.toNat) ∧
      (a.toNat = 0xED → b.toNat ≤ 0x9F) := by
  have hlow : a = 0xE0 ↔ a.toNat = 0xE0 := UInt8.toNat_inj.symm
  have hhigh : a = 0xED ↔ a.toNat = 0xED := UInt8.toNat_inj.symm
  rw [isSecondOfThree]
  simp only [hlow, hhigh]
  split
  · rw [within_iff]
    show 0xA0 ≤ b.toNat ∧ b.toNat ≤ 0xBF ↔ _
    omega
  · split
    · rw [within_iff]
      show 0x80 ≤ b.toNat ∧ b.toNat ≤ 0x9F ↔ _
      omega
    · rw [isContinuation_iff]
      omega

theorem isSecondOfFour_iff {a b : UInt8} : isSecondOfFour a b = true ↔
    0x80 ≤ b.toNat ∧ b.toNat ≤ 0xBF ∧ (a.toNat = 0xF0 → 0x90 ≤ b.toNat) ∧
      (a.toNat = 0xF4 → b.toNat ≤ 0x8F) := by
  have hlow : a = 0xF0 ↔ a.toNat = 0xF0 := UInt8.toNat_inj.symm
  have hhigh : a = 0xF4 ↔ a.toNat = 0xF4 := UInt8.toNat_inj.symm
  rw [isSecondOfFour]
  simp only [hlow, hhigh]
  split
  · rw [within_iff]
    show 0x90 ≤ b.toNat ∧ b.toNat ≤ 0xBF ↔ _
    omega
  · split
    · rw [within_iff]
      show 0x80 ≤ b.toNat ∧ b.toNat ≤ 0x8F ↔ _
      omega
    · rw [isContinuation_iff]
      omega

/-- The step with bytes compared by their numbers. -/
theorem step_cons (a : UInt8) (rest : Bytes) : step (a :: rest) =
    if a.toNat < 0x80 then .char (Char.ofNat a.toNat) 1 rest
    else if 0xC2 ≤ a.toNat ∧ a.toNat ≤ 0xDF then stepTwo a rest
    else if 0xE0 ≤ a.toNat ∧ a.toNat ≤ 0xEF then stepThree a rest
    else if 0xF0 ≤ a.toNat ∧ a.toNat ≤ 0xF4 then stepFour a rest
    else .broken 1 rest := by
  simp only [step, within_iff, UInt8.lt_iff_toNat_lt]
  rfl

section Step

variable {a b c d : UInt8} {rest : Bytes}

theorem step_one (ha : a.toNat < 0x80) : step (a :: rest) = .char (Char.ofNat a.toNat) 1 rest := by
  rw [step_cons, if_pos ha]

theorem step_two (ha : 0xC2 ≤ a.toNat ∧ a.toNat ≤ 0xDF) (hb : isContinuation b = true) :
    step (a :: b :: rest) = .char (Char.ofNat (a.toNat % 32 * 64 + b.toNat % 64)) 2 rest := by
  rw [step_cons, if_neg (by omega), if_pos ha, stepTwo, if_pos hb]

theorem step_three (ha : 0xE0 ≤ a.toNat ∧ a.toNat ≤ 0xEF) (hb : isSecondOfThree a b = true)
    (hc : isContinuation c = true) : step (a :: b :: c :: rest)
      = .char (Char.ofNat (a.toNat % 16 * 4096 + b.toNat % 64 * 64 + c.toNat % 64)) 3 rest := by
  rw [step_cons, if_neg (by omega), if_neg (by omega), if_pos ha, stepThree, if_pos hb]
  exact if_pos hc

theorem step_four (ha : 0xF0 ≤ a.toNat ∧ a.toNat ≤ 0xF4) (hb : isSecondOfFour a b = true)
    (hc : isContinuation c = true) (hd : isContinuation d = true) :
    step (a :: b :: c :: d :: rest) = .char (Char.ofNat (a.toNat % 8 * 262144
      + b.toNat % 64 * 4096 + c.toNat % 64 * 64 + d.toNat % 64)) 4 rest := by
  rw [step_cons, if_neg (by omega), if_neg (by omega), if_neg (by omega), if_pos ha, stepFour,
    if_pos hb]
  simp only [if_pos hc, if_pos hd]

end Step

/-! ## Bytes of one character -/

theorem toNat_ofNat {n : Nat} (hn : n < 256) : (UInt8.ofNat n).toNat = n := by
  rw [UInt8.toNat_ofNat', Nat.mod_eq_of_lt hn]

/-- The bytes of the character with a number. -/
def spelling (n : Nat) : Bytes :=
  if n ≤ 0x7F then [UInt8.ofNat n]
  else if n ≤ 0x7FF then [UInt8.ofNat (n / 64 % 32 + 0xC0), UInt8.ofNat (n % 64 + 0x80)]
  else if n ≤ 0xFFFF then
    [UInt8.ofNat (n / 4096 % 16 + 0xE0), UInt8.ofNat (n / 64 % 64 + 0x80),
      UInt8.ofNat (n % 64 + 0x80)]
  else
    [UInt8.ofNat (n / 262144 % 8 + 0xF0), UInt8.ofNat (n / 4096 % 64 + 0x80),
      UInt8.ofNat (n / 64 % 64 + 0x80), UInt8.ofNat (n % 64 + 0x80)]

theorem encodeChar_eq (c : Char) : utf8EncodeChar c = spelling c.toNat := rfl

/-- The bytes of a character outside ASCII are outside ASCII. -/
theorem wide_spelling {n : Nat} (hn : 0x7F < n) : ∀ b ∈ spelling n, 0x7F < b.toNat := by
  have hnone : ∀ b ∈ ([] : Bytes), 0x7F < b.toNat := List.forall_mem_nil _
  have hcons (m : Nat) (hm : 0x7F < m ∧ m < 0x100) {bytes : Bytes}
      (hrest : ∀ b ∈ bytes, 0x7F < b.toNat) : ∀ b ∈ UInt8.ofNat m :: bytes, 0x7F < b.toNat := by
    refine List.forall_mem_cons.2 ⟨?_, hrest⟩
    rw [toNat_ofNat hm.2]
    exact hm.1
  rw [spelling, if_neg (Nat.not_le.2 hn)]
  split
  · exact hcons _ (by omega) (hcons _ (by omega) hnone)
  · split
    · exact hcons _ (by omega) (hcons _ (by omega) (hcons _ (by omega) hnone))
    · exact hcons _ (by omega) (hcons _ (by omega) (hcons _ (by omega) (hcons _ (by omega) hnone)))

theorem step_spelling {n : Nat} (hn : n < 0xD800 ∨ 0xDFFF < n ∧ n < 0x110000) (rest : Bytes) :
    step (spelling n ++ rest) = .char (Char.ofNat n) (spelling n).length rest := by
  rw [spelling]
  -- by the number of bytes; the numbers of all bytes are in range
  split
  · have ha := toNat_ofNat (n := n) (by omega)
    show step (UInt8.ofNat n :: rest) = _
    rw [step_one (by omega), ha]
    rfl
  · split
    · have ha := toNat_ofNat (n := n / 64 % 32 + 0xC0) (by omega)
      have hb := toNat_ofNat (n := n % 64 + 0x80) (by omega)
      show step (_ :: _ :: rest) = .char _ 2 rest
      rw [step_two (by omega) (isContinuation_iff.2 (by omega)), ha, hb]
      congr 2
      omega
    · split
      · have ha := toNat_ofNat (n := n / 4096 % 16 + 0xE0) (by omega)
        have hb := toNat_ofNat (n := n / 64 % 64 + 0x80) (by omega)
        have hc := toNat_ofNat (n := n % 64 + 0x80) (by omega)
        show step (_ :: _ :: _ :: rest) = .char _ 3 rest
        rw [step_three (by omega) (isSecondOfThree_iff.2 (by omega))
          (isContinuation_iff.2 (by omega)), ha, hb, hc]
        congr 2
        omega
      · have ha := toNat_ofNat (n := n / 262144 % 8 + 0xF0) (by omega)
        have hb := toNat_ofNat (n := n / 4096 % 64 + 0x80) (by omega)
        have hc := toNat_ofNat (n := n / 64 % 64 + 0x80) (by omega)
        have hd := toNat_ofNat (n := n % 64 + 0x80) (by omega)
        show step (_ :: _ :: _ :: _ :: rest) = .char _ 4 rest
        rw [step_four (by omega) (isSecondOfFour_iff.2 (by omega))
          (isContinuation_iff.2 (by omega)) (isContinuation_iff.2 (by omega)), ha, hb, hc, hd]
        congr 2
        omega

/-- The bytes of a character are read as that character. -/
theorem step_encodeChar (c : Char) (rest : Bytes) :
    step (utf8EncodeChar c ++ rest) = .char c (utf8EncodeChar c).length rest := by
  rw [encodeChar_eq, step_spelling (n := c.toNat) c.valid, Char.ofNat_toNat]

theorem toNat_charOfNat {n : Nat} (hn : n < 0xD800 ∨ 0xDFFF < n ∧ n < 0x110000) :
    (Char.ofNat n).toNat = n := by
  have hvalid : n.isValidChar := hn
  rw [Char.ofNat, dif_pos hvalid]
  rfl

theorem ofNat_eq {n : Nat} {a : UInt8} (h : n = a.toNat) : UInt8.ofNat n = a := by
  rw [h, UInt8.ofNat_toNat]

section Spelling

variable {a b c d : UInt8}

theorem spelling_one (ha : a.toNat < 0x80) : utf8EncodeChar (Char.ofNat a.toNat) = [a] := by
  rw [encodeChar_eq, toNat_charOfNat (by omega), spelling, if_pos (by omega), ofNat_eq rfl]

theorem spelling_two (ha : 0xC2 ≤ a.toNat ∧ a.toNat ≤ 0xDF) (hb : isContinuation b = true) :
    utf8EncodeChar (Char.ofNat (a.toNat % 32 * 64 + b.toNat % 64)) = [a, b] := by
  rw [isContinuation_iff] at hb
  rw [encodeChar_eq, toNat_charOfNat (by omega), spelling, if_neg (by omega), if_pos (by omega),
    ofNat_eq (a := a) (by omega), ofNat_eq (a := b) (by omega)]

theorem spelling_three (ha : 0xE0 ≤ a.toNat ∧ a.toNat ≤ 0xEF) (hb : isSecondOfThree a b = true)
    (hc : isContinuation c = true) :
    utf8EncodeChar (Char.ofNat (a.toNat % 16 * 4096 + b.toNat % 64 * 64 + c.toNat % 64))
      = [a, b, c] := by
  rw [isSecondOfThree_iff] at hb
  rw [isContinuation_iff] at hc
  rw [encodeChar_eq, toNat_charOfNat (by omega), spelling, if_neg (by omega), if_neg (by omega),
    if_pos (by omega), ofNat_eq (a := a) (by omega), ofNat_eq (a := b) (by omega),
    ofNat_eq (a := c) (by omega)]

theorem spelling_four (ha : 0xF0 ≤ a.toNat ∧ a.toNat ≤ 0xF4) (hb : isSecondOfFour a b = true)
    (hc : isContinuation c = true) (hd : isContinuation d = true) :
    utf8EncodeChar (Char.ofNat (a.toNat % 8 * 262144 + b.toNat % 64 * 4096 + c.toNat % 64 * 64
      + d.toNat % 64)) = [a, b, c, d] := by
  rw [isSecondOfFour_iff] at hb
  rw [isContinuation_iff] at hc hd
  rw [encodeChar_eq, toNat_charOfNat (by omega), spelling, if_neg (by omega), if_neg (by omega),
    if_neg (by omega), ofNat_eq (a := a) (by omega), ofNat_eq (a := b) (by omega),
    ofNat_eq (a := c) (by omega), ofNat_eq (a := d) (by omega)]

end Spelling

theorem eq_nil_of_step {bytes : Bytes} (h : step bytes = .done) : bytes = [] := by
  rcases bytes with _ | ⟨a, _ | ⟨b, _ | ⟨c, _ | ⟨d, tail⟩⟩⟩⟩ <;>
    grind [step, stepTwo, stepThree, stepFour]

section Read

variable {a : UInt8} {bytes rest : Bytes} {c : Char} {width : Nat}

theorem eq_of_stepTwo (ha : 0xC2 ≤ a.toNat ∧ a.toNat ≤ 0xDF)
    (h : stepTwo a bytes = .char c width rest) : a :: bytes = utf8EncodeChar c ++ rest := by
  revert h
  fun_cases stepTwo a bytes with
  | case2 b bytes hb =>
    intro h
    injection h with hchar _ hrest
    rw [← hchar, ← hrest, spelling_two ha hb]
    rfl
  | _ => nofun

theorem eq_of_stepThree (ha : 0xE0 ≤ a.toNat ∧ a.toNat ≤ 0xEF)
    (h : stepThree a bytes = .char c width rest) : a :: bytes = utf8EncodeChar c ++ rest := by
  revert h
  fun_cases stepThree a bytes with
  | case3 b hb c bytes hc =>
    intro h
    injection h with hchar _ hrest
    rw [← hchar, ← hrest, spelling_three ha hb hc]
    rfl
  | _ => nofun

theorem eq_of_stepFour (ha : 0xF0 ≤ a.toNat ∧ a.toNat ≤ 0xF4)
    (h : stepFour a bytes = .char c width rest) : a :: bytes = utf8EncodeChar c ++ rest := by
  revert h
  fun_cases stepFour a bytes with
  | case4 b hb c hc d bytes hd =>
    intro h
    injection h with hchar _ hrest
    rw [← hchar, ← hrest, spelling_four ha hb hc hd]
    rfl
  | _ => nofun

/-- What is read as a character is the bytes of it. -/
theorem eq_of_step (h : step bytes = .char c width rest) : bytes = utf8EncodeChar c ++ rest := by
  cases bytes with
  | nil => cases h
  | cons a bytes =>
    -- the first byte says how many follow; too few of them are no character
    rw [step_cons] at h
    split at h
    next ha =>
      injection h with hchar _ hrest
      rw [← hchar, ← hrest, spelling_one ha]
      rfl
    next =>
      split at h
      next ha => exact eq_of_stepTwo ha h
      next =>
        split at h
        next ha => exact eq_of_stepThree ha h
        next =>
          split at h
          next ha => exact eq_of_stepFour ha h
          next => cases h

end Read

/-! ## Texts -/

/-- A character at the front is read, and the rest from behind it. -/
theorem decodeFrom_char {bytes rest : Bytes} {c : Char} {width : Nat}
    (h : step bytes = .char c width rest) (index : Nat) (read : List Char) :
    decodeFrom index read bytes = decodeFrom (index + width) (c :: read) rest := by
  rw [decodeFrom]
  split <;> simp_all

theorem decodeFrom_nil (index : Nat) (read : List Char) :
    decodeFrom index read [] = .ok read.reverse := by
  rw [decodeFrom]
  split
  · rfl
  all_goals
    rename_i hstep
    cases hstep

theorem decodeFrom_encode (cs : List Char) (index : Nat) (read : List Char) :
    decodeFrom index read (encode cs) = .ok (read.reverse ++ cs) := by
  induction cs generalizing index read with
  | nil =>
    rw [List.append_nil]
    exact decodeFrom_nil index read
  | cons c cs ih =>
    have hstep : step (encode (c :: cs)) = .char c (utf8EncodeChar c).length (encode cs) :=
      step_encodeChar c (encode cs)
    rw [decodeFrom_char hstep, ih, List.reverse_cons, List.append_assoc]
    rfl

/-- What is written is read back. -/
theorem decode_encode (cs : List Char) : decode (encode cs) = .ok cs :=
  decodeFrom_encode cs 0 []

theorem encode_of_decodeFrom {index : Nat} {read cs : List Char} {bytes : Bytes}
    (h : decodeFrom index read bytes = .ok cs) :
    ∃ later, cs = read.reverse ++ later ∧ encode later = bytes := by
  fun_induction decodeFrom index read bytes with
  | case1 index read bytes hstep =>
    obtain rfl := Except.ok.inj h
    have hnil : bytes = [] := eq_nil_of_step hstep
    exact ⟨[], by simp, by rw [hnil]; rfl⟩
  | case2 index read bytes c width rest hstep _ ih =>
    obtain ⟨later, rfl, rfl⟩ := ih h
    refine ⟨c :: later, by simp, ?_⟩
    exact (eq_of_step hstep).symm
  | case3 => cases h
  | case4 => cases h

/-- What can be read is what the text read is written as. -/
theorem encode_of_decode {bytes : Bytes} {cs : List Char} (h : decode bytes = .ok cs) :
    encode cs = bytes := by
  obtain ⟨later, rfl, hlater⟩ := encode_of_decodeFrom h
  exact hlater

/-! ## Texts with faults replaced -/

/-- A character at the front is read, and the rest behind it. -/
theorem decodeLossyFrom_char {bytes rest : Bytes} {c : Char} {width : Nat}
    (h : step bytes = .char c width rest) (read : List Char) :
    decodeLossyFrom read bytes = decodeLossyFrom (c :: read) rest := by
  rw [decodeLossyFrom]
  split <;> simp_all

theorem decodeLossyFrom_nil (read : List Char) : decodeLossyFrom read [] = read.reverse := by
  rw [decodeLossyFrom]
  split
  · rfl
  all_goals
    rename_i hstep
    cases hstep

/-- What is read so far comes in front. -/
theorem decodeLossyFrom_eq (read : List Char) (bytes : Bytes) :
    ∃ later, decodeLossyFrom read bytes = read.reverse ++ later := by
  fun_induction decodeLossyFrom read bytes with
  | case1 read bytes hstep => exact ⟨[], by simp⟩
  | case2 read bytes c width rest hstep _ ih =>
    obtain ⟨later, hlater⟩ := ih
    exact ⟨c :: later, by simp [hlater]⟩
  | case3 read bytes width rest hstep _ ih =>
    obtain ⟨later, hlater⟩ := ih
    exact ⟨'\uFFFD' :: later, by simp [hlater]⟩
  | case4 read bytes hstep => exact ⟨['\uFFFD'], by simp⟩

theorem decodeLossyFrom_encode (cs read : List Char) :
    decodeLossyFrom read (encode cs) = read.reverse ++ cs := by
  induction cs generalizing read with
  | nil =>
    rw [List.append_nil]
    exact decodeLossyFrom_nil read
  | cons c cs ih =>
    have hstep : step (encode (c :: cs)) = .char c (utf8EncodeChar c).length (encode cs) :=
      step_encodeChar c (encode cs)
    rw [decodeLossyFrom_char hstep, ih, List.reverse_cons, List.append_assoc]
    rfl

/-- In what is written there is no fault to replace. -/
theorem decodeLossy_encode (cs : List Char) : decodeLossy (encode cs) = cs :=
  decodeLossyFrom_encode cs []

end ArchiveVfs.Text.Utf8
