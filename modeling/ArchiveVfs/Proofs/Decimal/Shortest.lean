import ArchiveVfs.Proofs.Decimal.Span
import ArchiveVfs.Proofs.Text.Cut

/-!
# Shortest decimals

The shortest decimal of a positive finite number lies in its span, it has at most 17 digits, and no
decimal in the span has fewer; none with as few digits is nearer to the number (`shortest_spec`).
The spans of numbers that follow each other meet (`upper_eq_lower`).
-/

namespace ArchiveVfs.Decimal

namespace Span

variable {span : Span} {bits : UInt64}

/-! ## The spans of numbers of 64 bits -/

/-- A number of 64 bits, taken apart. -/
structure Parts (bits : UInt64) (exponent fraction : ℕ) : Prop where
  bits : bits.toNat = exponent * 2 ^ 52 + fraction
  fraction : fraction < 2 ^ 52
  exponent : exponent < 2048

variable {exponent fraction : ℕ}

theorem exists_parts (h : bits.toNat < 2047 * 2 ^ 52) :
    ∃ exponent fraction, Parts bits exponent fraction :=
  ⟨bits.toNat / 2 ^ 52, bits.toNat % 2 ^ 52, by omega, by omega, by omega⟩

/-- The digits in base two, with the one in front that is not written. -/
def mantissa (exponent fraction : ℕ) : ℕ :=
  if exponent = 0 then fraction else 2 ^ 52 + fraction

theorem Parts.ofBits_eq (parts : Parts bits exponent fraction) :
    ofBits bits =
      { low := (4 * mantissa exponent fraction - if fraction = 0 ∧ 1 < exponent then 1 else 2)
          * 1 <<< (max exponent 1 - 1077)
        value := 4 * mantissa exponent fraction * 1 <<< (max exponent 1 - 1077)
        high := (4 * mantissa exponent fraction + 2) * 1 <<< (max exponent 1 - 1077)
        unit := 1 <<< (1077 - max exponent 1)
        closed := mantissa exponent fraction % 2 = 0 } := by
  obtain ⟨hbits, hfraction, hexponent⟩ := parts
  have hmod : bits.toNat % 2 ^ 52 = fraction := by omega
  have hdiv : bits.toNat / 2 ^ 52 % 2048 = exponent := by omega
  unfold ofBits mantissa
  simp only [Nat.one_shiftLeft, hmod, hdiv, Bool.and_eq_true, decide_eq_true_eq]

/-- The bits of a finite number greater than zero. -/
structure IsPositive (bits : UInt64) : Prop where
  pos : 0 < bits.toNat
  finite : bits.toNat < 2047 * 2 ^ 52

/-- For the size of the number, the ends of its span are not too near to it. -/
structure Wide (span : Span) : Prop extends span.Proper where
  lower : span.value ≤ 2 ^ 54 * (span.value - span.low)
  upper : span.value ≤ 2 ^ 54 * (span.high - span.value)

/-- The number is not too near to zero either. -/
structure Precise (span : Span) : Prop extends span.Wide where
  size : span.unit ≤ 10 ^ 330 * span.value

theorem precise_ofBits (h : IsPositive bits) : (ofBits bits).Precise := by
  obtain ⟨exponent, fraction, hparts⟩ := exists_parts h.finite
  have hpos := h.pos
  obtain ⟨hbits, hfraction, hexponent⟩ := id hparts
  rw [hparts.ofBits_eq]
  have hsmall : 0 < mantissa exponent fraction := by
    unfold mantissa
    split <;> omega
  have hlarge : mantissa exponent fraction < 2 ^ 53 := by
    unfold mantissa
    split <;> omega
  -- an end that is nearer by half belongs to a power of two
  have hends : ∃ below, (if fraction = 0 ∧ 1 < exponent then 1 else 2) = below ∧
      (below = 2 ∨ below = 1 ∧ mantissa exponent fraction = 2 ^ 52) := by
    refine ⟨_, rfl, ?_⟩
    split
    next hboth =>
      right
      rw [mantissa, if_neg (by omega), hboth.1]
      exact ⟨rfl, rfl⟩
    · exact .inl rfl
  obtain ⟨below, hbelow, hends⟩ := hends
  rw [hbelow, Nat.one_shiftLeft, Nat.one_shiftLeft]
  generalize mantissa exponent fraction = mantissa at *
  have hscale : 0 < 2 ^ (max exponent 1 - 1077) := by positivity
  generalize 2 ^ (max exponent 1 - 1077) = scale at *
  have hlow : 4 * mantissa * scale - (4 * mantissa - below) * scale = below * scale := by
    rw [← Nat.sub_mul, Nat.sub_sub_self (by omega)]
  have hhigh : (4 * mantissa + 2) * scale - 4 * mantissa * scale = 2 * scale := by
    rw [← Nat.sub_mul, Nat.add_sub_cancel_left]
  refine ⟨⟨⟨by positivity, ?_, ?_⟩, ?_, ?_⟩, ?_⟩
  · exact Nat.mul_lt_mul_of_pos_right (by omega) hscale
  · exact Nat.mul_lt_mul_of_pos_right (by omega) hscale
  · rw [hlow, ← Nat.mul_assoc]
    exact Nat.mul_le_mul_right scale (by omega)
  · rw [hhigh, ← Nat.mul_assoc]
    exact Nat.mul_le_mul_right scale (by omega)
  · calc 2 ^ (1077 - max exponent 1) ≤ 2 ^ (33 * 33) :=
          Nat.pow_le_pow_right (by omega) (by omega)
      _ = (2 ^ 33) ^ 33 := Nat.pow_mul ..
      _ ≤ (10 ^ 10) ^ 33 := Nat.pow_le_pow_left (by decide) 33
      _ = 10 ^ 330 * 1 := by rw [show 330 = 10 * 33 from rfl, Nat.pow_mul, Nat.mul_one]
      _ ≤ 10 ^ 330 * (4 * mantissa * scale) :=
          Nat.mul_le_mul_left _ (Nat.mul_pos (by omega) hscale)

/-! ## Where spans meet -/

/-- The upper end. -/
def upper (span : Span) : ℚ :=
  span.high / span.unit

/-- The lower end. -/
def lower (span : Span) : ℚ :=
  span.low / span.unit

/-- A power of two, split for whole numbers. -/
theorem scaled_div_unit (n power : ℕ) :
    ((n * 1 <<< (power - 1077) : ℕ) : ℚ) / (1 <<< (1077 - power) : ℕ)
      = n * 2 ^ ((power : ℤ) - 1077) := by
  have hexponent : ((power - 1077 : ℕ) : ℤ) - (1077 - power : ℕ) = power - 1077 := by omega
  rw [Nat.one_shiftLeft, Nat.one_shiftLeft]
  push_cast
  rw [mul_div_assoc, ← zpow_natCast, ← zpow_natCast, ← zpow_sub₀ (by norm_num), hexponent]

theorem Parts.upper_eq (parts : Parts bits exponent fraction) :
    (ofBits bits).upper
      = ((4 * mantissa exponent fraction + 2 : ℕ) : ℚ)
        * 2 ^ (((max exponent 1 : ℕ) : ℤ) - 1077) := by
  rw [upper, parts.ofBits_eq]
  exact scaled_div_unit _ _

theorem Parts.lower_eq (parts : Parts bits exponent fraction) :
    (ofBits bits).lower
      = ((4 * mantissa exponent fraction - if fraction = 0 ∧ 1 < exponent then 1 else 2 : ℕ) : ℚ)
        * 2 ^ (((max exponent 1 : ℕ) : ℤ) - 1077) := by
  rw [lower, parts.ofBits_eq]
  exact scaled_div_unit _ _

/-- The spans of numbers that follow each other meet, also where the exponent grows. -/
theorem upper_eq_lower (hfinite : bits.toNat + 1 < 2047 * 2 ^ 52) :
    (ofBits bits).upper = (ofBits (bits + 1)).lower := by
  have hnext : (bits + 1).toNat = bits.toNat + 1 := by
    rw [UInt64.toNat_add]
    have : (1 : UInt64).toNat = 1 := rfl
    omega
  obtain ⟨exponent, fraction, hparts⟩ := exists_parts (Nat.lt_of_succ_lt hfinite)
  have hbits := hparts.bits
  have hfraction := hparts.fraction
  rw [hparts.upper_eq]
  rcases Nat.lt_or_ge (fraction + 1) (2 ^ 52) with hless | hlast
  · -- within one power of two both spans reach half the same step
    have hmore : Parts (bits + 1) exponent (fraction + 1) := ⟨by omega, hless, hparts.exponent⟩
    have hends : 4 * mantissa exponent (fraction + 1) - 2 = 4 * mantissa exponent fraction + 2 := by
      unfold mantissa
      split <;> omega
    rw [hmore.lower_eq, if_neg (by omega), hends]
  · -- the next number is a power of two; the step below it is half as wide, except at the first
    have hmore : Parts (bits + 1) (exponent + 1) 0 := ⟨by omega, by decide, by omega⟩
    rw [hmore.lower_eq]
    rcases Nat.eq_zero_or_pos exponent with rfl | hsome
    · have hends : 4 * mantissa 1 0 - 2 = 4 * mantissa 0 fraction + 2 := by
        unfold mantissa
        rw [if_pos rfl, if_neg one_ne_zero]
        omega
      rw [if_neg (by omega), hends]
      rfl
    · have hends : 4 * mantissa exponent fraction + 2
          = (4 * mantissa (exponent + 1) 0 - 1) * 2 := by
        unfold mantissa
        rw [if_neg (by omega), if_neg (by omega)]
        omega
      rw [if_pos ⟨rfl, by omega⟩, hends, max_eq_left (by omega), max_eq_left (by omega)]
      push_cast
      rw [add_sub_right_comm, zpow_add_one₀ (by norm_num)]
      ring

/-! ## The place of the point -/

theorem zerosBehindPoint_spec {unit value bound : ℕ} (hless : value < unit)
    (hbound : unit ≤ 10 ^ bound * value) :
    10 ^ zerosBehindPoint unit bound value * value < unit ∧
      unit ≤ 10 ^ (zerosBehindPoint unit bound value + 1) * value := by
  induction bound generalizing value with
  | zero => omega
  | succ bound ih =>
    rw [zerosBehindPoint]
    split
    next hlast =>
      rw [pow_zero, Nat.zero_add, pow_one]
      exact ⟨by omega, hlast⟩
    next hmore =>
      rw [pow_succ, Nat.mul_assoc] at hbound
      obtain ⟨hlow, hhigh⟩ := ih (by omega) hbound
      rw [pow_succ, Nat.mul_assoc]
      refine ⟨hlow, ?_⟩
      rwa [pow_succ, Nat.mul_assoc]

/-- The point stands behind the digits before it: the power of ten there is greater than the number,
and the one before is not. -/
theorem Precise.pointPlace_spec (h : span.Precise) :
    (10 : ℚ) ^ (span.pointPlace - 1) ≤ span.number ∧ span.number < 10 ^ span.pointPlace := by
  have hunit : (0 : ℚ) < span.unit := Nat.cast_pos.2 h.unit
  rw [pointPlace, number, le_div_iff₀ hunit, div_lt_iff₀ hunit]
  split
  next hle =>
    have hwhole : 0 < span.value / span.unit := Nat.div_pos hle h.unit
    obtain ⟨digits, hlength⟩ :
        ∃ digits, (Nat.toDigits 10 (span.value / span.unit)).length = digits + 1 :=
      Nat.exists_eq_succ_of_ne_zero Nat.length_toDigits_pos.ne'
    have hlt : span.value / span.unit < 10 ^ (digits + 1) :=
      (Nat.length_toDigits_le_iff (by decide) (Nat.succ_pos _)).1 hlength.le
    have hge : 10 ^ digits ≤ span.value / span.unit := by
      by_contra hless
      rcases Nat.eq_zero_or_pos digits with rfl | hsome
      · exact hless hwhole
      · have := (Nat.length_toDigits_le_iff (by decide) hsome).2 (not_le.1 hless)
        omega
    rw [hlength]
    push_cast
    rw [add_sub_cancel_right]
    constructor
    · have := (Nat.mul_le_mul_right span.unit hge).trans (Nat.div_mul_le_self _ _)
      exact_mod_cast this
    · have := (Nat.div_lt_iff_lt_mul h.unit).1 hlt
      exact_mod_cast this
  next hless =>
    obtain ⟨hlow, hhigh⟩ := zerosBehindPoint_spec (not_le.1 hless) h.size
    generalize zerosBehindPoint span.unit 330 span.value = zeros at *
    have hzeros : (10 : ℚ) ^ (-(zeros : ℤ)) = (10 ^ zeros)⁻¹ := by rw [zpow_neg, zpow_natCast]
    have hmore : (10 : ℚ) ^ (-(zeros : ℤ) - 1) = (10 ^ (zeros + 1))⁻¹ := by
      rw [← neg_add', zpow_neg]
      exact_mod_cast rfl
    rw [hzeros, hmore, inv_mul_le_iff₀ (by positivity), lt_inv_mul_iff₀ (by positivity)]
    exact ⟨by exact_mod_cast hhigh, by exact_mod_cast hlow⟩

/-! ## The number of digits -/

theorem Wide.shift (h : span.Wide) (places : ℤ) : (span.shift places).Wide where
  toProper := h.toProper.shift places
  lower := by
    show span.value * _ ≤ 2 ^ 54 * (span.value * _ - span.low * _)
    rw [← Nat.sub_mul, ← Nat.mul_assoc]
    exact Nat.mul_le_mul_right _ h.lower
  upper := by
    show span.value * _ ≤ 2 ^ 54 * (span.high * _ - span.value * _)
    rw [← Nat.sub_mul, ← Nat.mul_assoc]
    exact Nat.mul_le_mul_right _ h.upper

/-- The whole number nearest to a large number lies in its span: the ends are more than a half
away. -/
theorem Wide.exists_contains (h : span.Wide) (hlarge : 10 ^ 16 ≤ span.number) :
    ∃ m : ℕ, span.Contains m := by
  have hunit : (0 : ℚ) < span.unit := Nat.cast_pos.2 h.unit
  have hvalue := mul_le_mul_of_nonneg_right hlarge hunit.le
  rw [h.number_mul_unit] at hvalue
  have hlower : (span.value : ℚ) ≤ 2 ^ 54 * (span.value - span.low) := by
    rw [← Nat.cast_sub h.below.le]
    exact_mod_cast h.lower
  have hupper : (span.value : ℚ) ≤ 2 ^ 54 * (span.high - span.value) := by
    rw [← Nat.cast_sub h.above.le]
    exact_mod_cast h.upper
  obtain ⟨rounded, hrounded, _⟩ := h.exists_rounded
  have hhalf : |(rounded : ℚ) - span.number| ≤ 1 / 2 := by
    have hfloor := h.floor_le
    have hnext := h.lt_floor
    rw [abs_le]
    rcases hrounded with ⟨rfl, hle⟩ | ⟨rfl, hle⟩
    · constructor <;> linarith
    · push_cast
      constructor <;> linarith
  have hnear := mul_le_mul_of_nonneg_right hhalf hunit.le
  refine ⟨rounded, h.contains_of_abs_lt ?_ ?_⟩
  · linarith
  · linarith

/-- With 17 digits there is always a decimal in the span. -/
theorem Precise.exists_contains (h : span.Precise) :
    ∃ m : ℕ, (span.shift (17 - span.pointPlace)).Contains m := by
  apply (h.toWide.shift _).exists_contains
  rw [number_shift]
  calc (10 : ℚ) ^ 16 = 10 ^ (span.pointPlace - 1) * 10 ^ (17 - span.pointPlace) := by
        rw [← zpow_add₀ (by norm_num), sub_add_sub_cancel']
        norm_num
    _ ≤ span.number * 10 ^ (17 - span.pointPlace) := by
        gcongr
        exact h.pointPlace_spec.1

/-- A decimal in the span is matched on the grid of as many digits: there is a number of the grid in
the span that is not farther from the middle. -/
theorem Precise.exists_on_grid (h : span.Precise) {n count : ℕ} {exponent : ℤ}
    (hin : span.Contains (n * 10 ^ exponent)) (hcount : 0 < count) (hdigits : n < 10 ^ count) :
    ∃ m : ℕ, span.Contains (m * 10 ^ (span.pointPlace - count)) ∧
      |m * 10 ^ (span.pointPlace - count) - span.number| ≤ |n * 10 ^ exponent - span.number| := by
  have hten : (10 : ℚ) ≠ 0 := by norm_num
  rcases le_or_gt (span.pointPlace - count) exponent with hfine | hcoarse
  · -- the decimal itself lies on the grid
    obtain ⟨zeros, hzeros⟩ := Int.le.dest hfine
    have hsame : ((n * 10 ^ zeros : ℕ) : ℚ) * 10 ^ (span.pointPlace - count)
        = n * 10 ^ exponent := by
      rw [← hzeros, zpow_add₀ hten, zpow_natCast]
      push_cast
      ring
    exact ⟨n * 10 ^ zeros, by rwa [hsame], by rw [hsame]⟩
  · -- the decimal is less than the power of ten before the point, and that lies on the grid
    have hpower : ((10 ^ (count - 1) : ℕ) : ℚ) * 10 ^ (span.pointPlace - count)
        = 10 ^ (span.pointPlace - 1) := by
      push_cast
      rw [← zpow_natCast, ← zpow_add₀ hten]
      congr 1
      omega
    have hless : (n : ℚ) * 10 ^ exponent ≤ 10 ^ (span.pointPlace - 1) := by
      calc (n : ℚ) * 10 ^ exponent ≤ 10 ^ count * 10 ^ exponent := by
            gcongr
            exact_mod_cast hdigits.le
        _ = 10 ^ (count + exponent) := by rw [zpow_add₀ hten, zpow_natCast]
        _ ≤ 10 ^ (span.pointPlace - 1) := zpow_le_zpow_right₀ (by norm_num) (by omega)
    have hmiddle := h.pointPlace_spec.1
    refine ⟨10 ^ (count - 1), ?_, ?_⟩
    · rw [hpower]
      exact hin.convex h.contains_number hless hmiddle
    · rw [hpower, abs_sub_comm, abs_of_nonneg (by linarith), abs_sub_comm,
        abs_of_nonneg (by linarith)]
      linarith

end Span

/-! ## The shortest decimal -/

/-- The number that a decimal stands for. -/
def Digits.number (decimal : Digits) : ℚ :=
  Nat.ofDigitChars 10 decimal.digits 0 * 10 ^ (decimal.point - decimal.digits.length)

/-- A number of so many digits, or the next one, keeps no more digits than these. -/
theorem length_dropTrailing_toDigits {n count : ℕ} (hcount : 0 < count) (h : n ≤ 10 ^ count) :
    (Text.dropTrailing '0' (Nat.toDigits 10 n)).length ≤ count := by
  obtain ⟨zeros, hdigits⟩ := Text.exists_dropTrailing '0' (Nat.toDigits 10 n)
  have hlength := congrArg List.length hdigits
  rw [List.length_append, List.length_replicate] at hlength
  rcases h.lt_or_eq with hless | rfl
  · have := (Nat.length_toDigits_le_iff (by decide) hcount).2 hless
    omega
  · -- the power of ten has a digit more, but ends with a zero
    have hmore : (Nat.toDigits 10 (10 ^ count)).length ≤ count + 1 :=
      (Nat.length_toDigits_le_iff (by decide) (Nat.succ_pos _)).2
        (Nat.pow_lt_pow_right (by decide) (Nat.lt_succ_self _))
    have hlast : (Nat.toDigits 10 (10 ^ count)).getLast? = some '0' := by
      obtain ⟨fewer, rfl⟩ := Nat.exists_eq_succ_of_ne_zero hcount.ne'
      rw [Nat.pow_succ, Nat.toDigits_of_base_le (by decide)
        (Nat.le_mul_of_pos_left 10 (Nat.pow_pos (by decide))), Nat.mul_mod_left]
      simp [Nat.digitChar]
    have hsome : zeros ≠ 0 := by
      rintro rfl
      rw [List.replicate_zero, List.append_nil] at hdigits
      exact Text.getLast?_dropTrailing '0' (Nat.toDigits 10 (10 ^ count)) (hdigits ▸ hlast)
    omega

/-- The zeros at the end are in the exponent. -/
theorem number_dropTrailing (n : ℕ) (point : ℤ) :
    Digits.number { digits := Text.dropTrailing '0' (Nat.toDigits 10 n), point }
      = n * 10 ^ (point - (Nat.toDigits 10 n).length) := by
  obtain ⟨zeros, hdigits⟩ := Text.exists_dropTrailing '0' (Nat.toDigits 10 n)
  have hlength := congrArg List.length hdigits
  rw [List.length_append, List.length_replicate] at hlength
  have hvalue : n
      = 10 ^ zeros * Nat.ofDigitChars 10 (Text.dropTrailing '0' (Nat.toDigits 10 n)) 0 := by
    rw [← Nat.ofDigitChars_replicate_zero, ← Nat.ofDigitChars_append, ← hdigits,
      Nat.ofDigitChars_ten_toDigits]
  have hcast := congrArg (Nat.cast : ℕ → ℚ) hvalue
  push_cast at hcast
  rw [Digits.number, hlength, hcast]
  dsimp only
  rw [mul_comm (10 ^ zeros : ℚ), mul_assoc, ← zpow_natCast, ← zpow_add₀ (by norm_num)]
  congr 2
  push_cast
  ring

/-- What the search finds: the nearest number on the first grid that has one in the span. -/
structure Found (span : Span) (decimal : Digits) (count n : ℕ) : Prop where
  pos : 0 < count
  bound : count ≤ 17
  nearest : (span.shift (count - span.pointPlace)).nearest? = some n
  first : ∀ fewer, 0 < fewer → fewer < count →
    (span.shift (fewer - span.pointPlace)).nearest? = none
  decimal : decimal =
    { digits := Text.dropTrailing '0' (Nat.toDigits 10 n)
      point := span.pointPlace + ((Nat.toDigits 10 n).length - count : ℕ) }

theorem exists_found {bits : UInt64} (h : (Span.ofBits bits).Precise) :
    ∃ count n, Found (Span.ofBits bits) (shortest bits) count n := by
  generalize hspan : Span.ofBits bits = span at h
  have hseventeen : (span.shift ((17 : ℕ) - span.pointPlace)).nearest? ≠ none := by
    intro hnone
    obtain ⟨m, hm⟩ := h.exists_contains
    exact ((h.toProper.shift _).nearest?_eq_none_iff.1 hnone) m hm
  rw [shortest, hspan]
  dsimp only
  cases hfound : (List.range' 1 17).findSome? fun count =>
      (span.shift (Int.ofNat count - span.pointPlace)).nearest?.map
        fun number => (count, number) with
  | none =>
    rw [List.findSome?_eq_none_iff] at hfound
    have := hfound 17 (by decide)
    rw [Option.map_eq_none_iff] at this
    exact absurd this hseventeen
  | some found =>
    obtain ⟨before, count, after, hrange, hcount, hnone⟩ := List.findSome?_eq_some_iff.1 hfound
    obtain ⟨n, hn, rfl⟩ := Option.map_eq_some_iff.1 hcount
    have hmem : count ∈ List.range' 1 17 := by rw [hrange]; simp
    have hbounds := List.mem_range'_1.1 hmem
    refine ⟨count, n, by omega, by omega, hn, ?_, rfl⟩
    intro fewer hfewer hless
    obtain ⟨skipped, _, hbefore, hafter⟩ := List.range'_eq_append_iff.1 hrange
    have hhead : count = 1 + skipped := by
      have := congrArg List.head? hafter
      rw [List.head?_cons, List.head?_range'] at this
      split at this
      · cases this
      · rw [Nat.mul_one] at this
        exact Option.some.inj this
    have hin : fewer ∈ before := by
      rw [hbefore, List.mem_range'_1]
      omega
    have := hnone fewer hin
    rwa [Option.map_eq_none_iff] at this

namespace Found

variable {span : Span} {decimal : Digits} {count n : ℕ}

/-- Shifted to the grid, the number has as many digits before the point as the grid. -/
theorem shifted (found : Found span decimal count n) (h : span.Precise) :
    (10 : ℚ) ^ (count - 1) ≤ (span.shift (count - span.pointPlace)).number ∧
      (span.shift (count - span.pointPlace)).number < 10 ^ count := by
  obtain ⟨hlow, hhigh⟩ := h.pointPlace_spec
  have hscale : (0 : ℚ) < 10 ^ (count - span.pointPlace) := by positivity
  have hten : (10 : ℚ) ≠ 0 := by norm_num
  rw [Span.number_shift]
  constructor
  · have hpower : (10 : ℚ) ^ (count - 1)
        = 10 ^ (span.pointPlace - 1) * 10 ^ (count - span.pointPlace) := by
      rw [← zpow_add₀ hten, sub_add_sub_cancel', ← zpow_natCast, Nat.cast_sub found.pos,
        Nat.cast_one]
    rw [hpower]
    exact mul_le_mul_of_nonneg_right hlow hscale.le
  · have hpower : (10 : ℚ) ^ count = 10 ^ span.pointPlace * 10 ^ (count - span.pointPlace) := by
      rw [← zpow_add₀ hten, add_sub_cancel, zpow_natCast]
    rw [hpower]
    exact mul_lt_mul_of_pos_right hhigh hscale

theorem bounds (found : Found span decimal count n) (h : span.Precise) :
    10 ^ (count - 1) ≤ n ∧ n ≤ 10 ^ count := by
  have hproper := h.toProper.shift (count - span.pointPlace)
  obtain ⟨hlow, hhigh⟩ := found.shifted h
  have hfloor : 10 ^ (count - 1) ≤ (span.shift (count - span.pointPlace)).floor ∧
      (span.shift (count - span.pointPlace)).floor < 10 ^ count := by
    have hle := hproper.floor_le
    have hlt := hproper.lt_floor
    constructor
    · have : ((10 ^ (count - 1) : ℕ) : ℚ) < (span.shift (count - span.pointPlace)).floor + 1 := by
        push_cast
        linarith
      exact Nat.lt_succ_iff.1 (by exact_mod_cast this)
    · have : ((span.shift (count - span.pointPlace)).floor : ℚ) < ((10 ^ count : ℕ) : ℚ) := by
        push_cast
        linarith
      exact_mod_cast this
  rcases (hproper.of_nearest? found.nearest).2 with rfl | rfl <;> omega

theorem length_le (found : Found span decimal count n) (h : span.Precise) :
    decimal.digits.length ≤ count := by
  rw [found.decimal]
  exact length_dropTrailing_toDigits found.pos (found.bounds h).2

theorem number_eq (found : Found span decimal count n) (h : span.Precise) :
    decimal.number = n * 10 ^ (span.pointPlace - count) := by
  have hlength : count ≤ (Nat.toDigits 10 n).length := by
    by_contra hless
    have hsome : 0 < (Nat.toDigits 10 n).length := Nat.length_toDigits_pos
    have hsmall := (Nat.length_toDigits_le_iff (n := n) (k := count - 1) (b := 10) (by decide)
      (by omega)).1 (by omega)
    exact absurd hsmall (not_lt.2 (found.bounds h).1)
  rw [found.decimal, number_dropTrailing, Nat.cast_sub hlength]
  congr 2
  ring

end Found

/-- What is on a grid lies in the span exactly if it lies in the span shifted to the grid. -/
theorem Span.contains_on_grid (span : Span) (m count : ℕ) :
    span.Contains (m * 10 ^ (span.pointPlace - count)) ↔
      (span.shift (count - span.pointPlace)).Contains m := by
  rw [← contains_shift span (count - span.pointPlace), mul_assoc, ← zpow_add₀ (by norm_num)]
  simp

/-- Distances are shifted with a span. -/
theorem Span.abs_sub_on_grid (span : Span) (m count : ℕ) :
    |(m : ℚ) - (span.shift (count - span.pointPlace)).number| * 10 ^ (span.pointPlace - count)
      = |(m : ℚ) * 10 ^ (span.pointPlace - count) - span.number| := by
  have hscale : (0 : ℚ) < 10 ^ (span.pointPlace - count) := by positivity
  have hback : span.number * 10 ^ (count - span.pointPlace) * 10 ^ (span.pointPlace - count)
      = span.number := by
    rw [mul_assoc, ← zpow_add₀ (by norm_num)]
    simp
  rw [number_shift, ← abs_of_pos hscale, ← abs_mul, abs_of_pos hscale, sub_mul, hback]

/-- The shortest decimal of a positive finite number lies in its span, and it has no more than 17
digits. No decimal in the span has fewer digits, and none with as few is nearer to the number. -/
theorem shortest_spec {bits : UInt64} (h : Span.IsPositive bits) :
    (Span.ofBits bits).Contains (shortest bits).number ∧
    (shortest bits).digits.length ≤ 17 ∧
    ∀ (n : ℕ) (exponent : ℤ), (Span.ofBits bits).Contains (n * 10 ^ exponent) →
      (shortest bits).digits.length ≤ (Nat.toDigits 10 n).length ∧
      ((Nat.toDigits 10 n).length ≤ (shortest bits).digits.length →
        |(shortest bits).number - (Span.ofBits bits).number|
          ≤ |n * 10 ^ exponent - (Span.ofBits bits).number|) := by
  have hprecise := Span.precise_ofBits h
  obtain ⟨count, found, hfound⟩ := exists_found hprecise
  generalize Span.ofBits bits = span at *
  have hproper := hprecise.toProper.shift (count - span.pointPlace)
  have hlength := hfound.length_le hprecise
  refine ⟨?_, hlength.trans hfound.bound, fun n exponent hin => ⟨?_, fun hfew => ?_⟩⟩
  · rw [hfound.number_eq hprecise, span.contains_on_grid]
    exact (hproper.of_nearest? hfound.nearest).1
  · have hdigits : n < 10 ^ (Nat.toDigits 10 n).length :=
      (Nat.length_toDigits_le_iff (by decide) Nat.length_toDigits_pos).1 le_rfl
    obtain ⟨m, hm, _⟩ := hprecise.exists_on_grid hin Nat.length_toDigits_pos hdigits
    by_contra hless
    have hnone := hfound.first (Nat.toDigits 10 n).length Nat.length_toDigits_pos (by omega)
    exact (hprecise.toProper.shift _).nearest?_eq_none_iff.1 hnone m
      ((span.contains_on_grid m _).1 hm)
  · have hdigits : n < 10 ^ count :=
      (Nat.length_toDigits_le_iff (by decide) hfound.pos).1 (hfew.trans hlength)
    obtain ⟨m, hm, hnear⟩ := hprecise.exists_on_grid hin hfound.pos hdigits
    have hshifted := hproper.abs_nearest?_le hfound.nearest ((span.contains_on_grid m count).1 hm)
    have hscale : (0 : ℚ) ≤ 10 ^ (span.pointPlace - count) := by positivity
    have hgrid := mul_le_mul_of_nonneg_right hshifted hscale
    rw [span.abs_sub_on_grid, span.abs_sub_on_grid] at hgrid
    rw [hfound.number_eq hprecise]
    exact hgrid.trans hnear

/-- The number nearest to a tenth. -/
example : shortest 0x3FB999999999999A = { digits := ['1'], point := 0 } := by decide +kernel

end ArchiveVfs.Decimal
