import Mathlib.Algebra.Order.Field.Power
import Mathlib.Algebra.Order.Field.Rat
import Mathlib.Tactic.FieldSimp
import Mathlib.Tactic.Linarith
import Mathlib.Tactic.Positivity
import Mathlib.Tactic.Ring
import ArchiveVfs.Decimal.Shortest

/-!
# Spans and the whole numbers in them

What a span contains is told by rational numbers (`Span.Contains`): it is convex, and shifting it
multiplies it by a power of ten (`contains_shift`). `nearest?` finds a whole number in it exactly
if there is one (`nearest?_eq_none_iff`), and of all of them one that is nearest to the number
itself (`abs_nearest?_le`).
-/

namespace ArchiveVfs.Decimal

namespace Span

variable {span : Span} {x y z : ℚ} {n : ℕ}

/-- The ends lie on both sides of a positive number. -/
structure Proper (span : Span) : Prop where
  unit : 0 < span.unit
  below : span.low < span.value
  above : span.value < span.high

/-- The number in the middle. -/
def number (span : Span) : ℚ :=
  span.value / span.unit

/-- The span holds a number between its ends, and the ends if it is closed. -/
def Contains (span : Span) (x : ℚ) : Prop :=
  if span.closed then span.low ≤ x * span.unit ∧ x * span.unit ≤ span.high
  else span.low < x * span.unit ∧ x * span.unit < span.high

theorem holds_iff : span.holds n = true ↔ span.Contains n := by
  rw [holds, Contains]
  cases span.closed with
  | true =>
    simp only [if_true, Bool.and_eq_true, decide_eq_true_eq]
    norm_cast
  | false =>
    simp only [Bool.false_eq_true, if_false, Bool.and_eq_true, decide_eq_true_eq]
    norm_cast

/-- What lies between two numbers of a span lies in it. -/
theorem Contains.convex (hx : span.Contains x) (hz : span.Contains z) (hxy : x ≤ y) (hyz : y ≤ z) :
    span.Contains y := by
  have hlow : x * span.unit ≤ y * span.unit := by gcongr
  have hhigh : y * span.unit ≤ z * span.unit := by gcongr
  rw [Contains] at hx hz ⊢
  split at hx
  next hclosed =>
    rw [if_pos hclosed] at hz ⊢
    exact ⟨hx.1.trans hlow, hhigh.trans hz.2⟩
  next hopen =>
    rw [if_neg hopen] at hz ⊢
    exact ⟨hx.1.trans_le hlow, hhigh.trans_lt hz.2⟩

theorem Proper.number_mul_unit (h : span.Proper) : span.number * span.unit = span.value := by
  have hunit : (span.unit : ℚ) ≠ 0 := Nat.cast_ne_zero.2 h.unit.ne'
  rw [number, div_mul_cancel₀ _ hunit]

/-- A number is in the span if it is nearer to the middle than both ends. -/
theorem Proper.contains_of_abs_lt (h : span.Proper)
    (hlow : |x - span.number| * span.unit < span.value - span.low)
    (hhigh : |x - span.number| * span.unit < span.high - span.value) : span.Contains x := by
  have hunit : (0 : ℚ) < span.unit := Nat.cast_pos.2 h.unit
  have hmiddle := h.number_mul_unit
  have hbelow : (span.number - x) * span.unit ≤ |x - span.number| * span.unit := by
    gcongr
    rw [abs_sub_comm]
    exact le_abs_self _
  have habove : (x - span.number) * span.unit ≤ |x - span.number| * span.unit := by
    gcongr
    exact le_abs_self _
  rw [sub_mul] at hbelow habove
  rw [Contains]
  split
  · constructor <;> linarith
  · constructor <;> linarith

theorem Proper.contains_number (h : span.Proper) : span.Contains span.number := by
  have hbelow : (span.low : ℚ) < span.value := Nat.cast_lt.2 h.below
  have habove : (span.value : ℚ) < span.high := Nat.cast_lt.2 h.above
  apply h.contains_of_abs_lt
  · rw [sub_self, abs_zero, zero_mul]
    linarith
  · rw [sub_self, abs_zero, zero_mul]
    linarith

/-! ## Shifts -/

theorem tenTo_eq (exponent : ℕ) : tenTo exponent = 10 ^ exponent := by
  induction exponent with
  | zero => rfl
  | succ exponent ih => rw [tenTo, ih, pow_succ']

theorem tenTo_div_tenTo (places : ℤ) :
    (tenTo places.toNat : ℚ) / tenTo (-places).toNat = 10 ^ places := by
  rw [tenTo_eq, tenTo_eq, Nat.cast_pow, Nat.cast_pow, ← zpow_natCast, ← zpow_natCast,
    Nat.cast_ofNat, ← zpow_sub₀ (by norm_num)]
  congr 1
  omega

theorem tenTo_pos (exponent : ℕ) : 0 < tenTo exponent := by
  rw [tenTo_eq]
  positivity

theorem Proper.shift (h : span.Proper) (places : ℤ) : (span.shift places).Proper where
  unit := Nat.mul_pos h.unit (tenTo_pos _)
  below := Nat.mul_lt_mul_of_pos_right h.below (tenTo_pos _)
  above := Nat.mul_lt_mul_of_pos_right h.above (tenTo_pos _)

theorem number_shift (span : Span) (places : ℤ) :
    (span.shift places).number = span.number * 10 ^ places := by
  rw [number, number, ← tenTo_div_tenTo, shift]
  push_cast
  rw [mul_div_mul_comm]

/-- A shifted span holds the numbers that are shifted as much. -/
theorem contains_shift (span : Span) (places : ℤ) :
    (span.shift places).Contains (x * 10 ^ places) ↔ span.Contains x := by
  have hscale : (0 : ℚ) < tenTo places.toNat := Nat.cast_pos.2 (tenTo_pos _)
  have hother : (tenTo (-places).toNat : ℚ) ≠ 0 := Nat.cast_ne_zero.2 (tenTo_pos _).ne'
  have hmiddle : x * 10 ^ places * ((span.unit * tenTo (-places).toNat : ℕ) : ℚ)
      = x * span.unit * tenTo places.toNat := by
    rw [← tenTo_div_tenTo]
    push_cast
    field_simp
  rw [Contains, Contains]
  simp only [shift]
  rw [hmiddle]
  push_cast
  rw [mul_le_mul_iff_of_pos_right hscale, mul_le_mul_iff_of_pos_right hscale,
    mul_lt_mul_iff_of_pos_right hscale, mul_lt_mul_iff_of_pos_right hscale]

/-! ## The nearest whole number -/

/-- The whole number below the middle. -/
def floor (span : Span) : ℕ :=
  span.value / span.unit

theorem Proper.floor_le (h : span.Proper) : (span.floor : ℚ) ≤ span.number := by
  rw [number, le_div_iff₀ (Nat.cast_pos.2 h.unit)]
  exact_mod_cast Nat.div_mul_le_self span.value span.unit

theorem Proper.lt_floor (h : span.Proper) : span.number < span.floor + 1 := by
  rw [number, div_lt_iff₀ (Nat.cast_pos.2 h.unit)]
  have hlt := Nat.lt_div_mul_add (a := span.value) h.unit
  rw [← Nat.succ_mul] at hlt
  exact_mod_cast hlt

/-- The number that is tried first: one of the two around the middle, at most a half away. -/
theorem Proper.exists_rounded (h : span.Proper) :
    ∃ rounded, (rounded = span.floor ∧ span.number ≤ span.floor + 1 / 2 ∨
        rounded = span.floor + 1 ∧ span.floor + 1 / 2 ≤ span.number) ∧
      span.nearest? = if span.holds rounded then some rounded
        else [span.floor, span.floor + 1].find? span.holds := by
  have hunit : (0 : ℚ) < span.unit := Nat.cast_pos.2 h.unit
  have hdown : 2 * span.value ≤ (2 * span.floor + 1) * span.unit →
      span.number ≤ span.floor + 1 / 2 := by
    intro hle
    have hcast : (2 : ℚ) * span.value ≤ (2 * span.floor + 1) * span.unit := by exact_mod_cast hle
    rw [number, div_le_iff₀ hunit]
    linarith
  have hup : (2 * span.floor + 1) * span.unit ≤ 2 * span.value →
      span.floor + 1 / 2 ≤ span.number := by
    intro hle
    have hcast : (2 * span.floor + 1) * span.unit ≤ (2 : ℚ) * span.value := by exact_mod_cast hle
    rw [number, le_div_iff₀ hunit]
    linarith
  refine ⟨_, ?_, rfl⟩
  rw [← floor]
  split_ifs with hless hmore heven
  · exact .inl ⟨rfl, hdown hless.le⟩
  · exact .inr ⟨rfl, hup hmore.le⟩
  · exact .inl ⟨rfl, hdown (not_lt.1 hmore)⟩
  · exact .inr ⟨rfl, hup (not_lt.1 hless)⟩

theorem Proper.of_nearest? (h : span.Proper) (hnearest : span.nearest? = some n) :
    span.Contains n ∧ (n = span.floor ∨ n = span.floor + 1) := by
  obtain ⟨rounded, hrounded, hchoice⟩ := h.exists_rounded
  rw [hchoice] at hnearest
  rw [← holds_iff]
  split at hnearest
  next hholds =>
    obtain rfl := Option.some.inj hnearest
    exact ⟨hholds, hrounded.imp And.left And.left⟩
  · have hmem := List.mem_of_find?_eq_some hnearest
    exact ⟨List.find?_some hnearest, by simpa using hmem⟩

/-- A whole number below the middle is in the span only if the one next to the middle is. -/
theorem Proper.contains_floor (h : span.Proper) {m : ℕ} (hm : span.Contains m)
    (hle : m ≤ span.floor) : span.Contains span.floor :=
  hm.convex h.contains_number (Nat.cast_le.2 hle) h.floor_le

theorem Proper.contains_floor_add_one (h : span.Proper) {m : ℕ} (hm : span.Contains m)
    (hlt : span.floor < m) : span.Contains (span.floor + 1 : ℕ) := by
  refine h.contains_number.convex hm ?_ (Nat.cast_le.2 hlt)
  push_cast
  exact h.lt_floor.le

/-- A whole number is found exactly if one lies in the span. -/
theorem Proper.nearest?_eq_none_iff (h : span.Proper) :
    span.nearest? = none ↔ ∀ m : ℕ, ¬ span.Contains m := by
  constructor
  · intro hnone m hm
    have hholds : span.holds span.floor = true ∨ span.holds (span.floor + 1) = true := by
      rw [holds_iff, holds_iff]
      rcases le_or_gt m span.floor with hle | hlt
      · exact .inl (h.contains_floor hm hle)
      · exact .inr (h.contains_floor_add_one hm hlt)
    obtain ⟨rounded, _, hnearest⟩ := h.exists_rounded
    rw [hnearest] at hnone
    split at hnone
    · cases hnone
    · rw [List.find?_eq_none] at hnone
      rcases hholds with hfloor | hnext
      · exact hnone _ (by simp) hfloor
      · exact hnone _ (by simp) hnext
  · intro hall
    cases hnearest : span.nearest? with
    | none => rfl
    | some n => exact absurd (h.of_nearest? hnearest).1 (hall n)

/-- No whole number in the span is nearer to the middle than the one that is found. -/
theorem Proper.abs_nearest?_le (h : span.Proper) (hnearest : span.nearest? = some n) {m : ℕ}
    (hm : span.Contains m) : |(n : ℚ) - span.number| ≤ |(m : ℚ) - span.number| := by
  have hfloor := h.floor_le
  have hnext := h.lt_floor
  -- a whole number is as far from the middle as the next one on its side, or farther
  have hside : m ≤ span.floor ∧ span.number - span.floor ≤ |(m : ℚ) - span.number| ∨
      span.floor < m ∧ span.floor + 1 - span.number ≤ |(m : ℚ) - span.number| := by
    rcases le_or_gt m span.floor with hle | hlt
    · have hcast : (m : ℚ) ≤ span.floor := Nat.cast_le.2 hle
      refine .inl ⟨hle, ?_⟩
      rw [abs_sub_comm, abs_of_nonneg (by linarith)]
      linarith
    · have hcast : (span.floor + 1 : ℚ) ≤ m := by exact_mod_cast hlt
      refine .inr ⟨hlt, ?_⟩
      rw [abs_of_nonneg (by linarith)]
      linarith
  have habsFloor : |(span.floor : ℚ) - span.number| = span.number - span.floor := by
    rw [abs_sub_comm, abs_of_nonneg (by linarith)]
  have habsNext : |((span.floor + 1 : ℕ) : ℚ) - span.number| = span.floor + 1 - span.number := by
    push_cast
    rw [abs_of_nonneg (by linarith)]
  obtain ⟨hin, hmem⟩ := h.of_nearest? hnearest
  obtain ⟨rounded, hrounded, hchoice⟩ := h.exists_rounded
  rw [hchoice] at hnearest
  split at hnearest
  · obtain rfl := Option.some.inj hnearest
    rcases hrounded with ⟨rfl, hhalf⟩ | ⟨rfl, hhalf⟩
    · rw [habsFloor]
      rcases hside with ⟨_, hfar⟩ | ⟨_, hfar⟩ <;> linarith
    · rw [habsNext]
      rcases hside with ⟨_, hfar⟩ | ⟨_, hfar⟩ <;> linarith
  next hout =>
    -- the nearer one lies outside, so whatever is in the span lies on the other side
    rw [holds_iff] at hout
    rcases hrounded with ⟨rfl, _⟩ | ⟨rfl, _⟩
    · rcases hmem with rfl | rfl
      · exact absurd hin hout
      · rw [habsNext]
        rcases hside with ⟨hle, _⟩ | ⟨_, hfar⟩
        · exact absurd (h.contains_floor hm hle) hout
        · exact hfar
    · rcases hmem with rfl | rfl
      · rw [habsFloor]
        rcases hside with ⟨_, hfar⟩ | ⟨hlt, _⟩
        · exact hfar
        · exact absurd (h.contains_floor_add_one hm hlt) hout
      · exact absurd hin hout

end Span

end ArchiveVfs.Decimal
