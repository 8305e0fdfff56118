import Mathlib.Algebra.Order.Field.Power
import Mathlib.Algebra.Order.Floor.Semifield
import Mathlib.Data.Rat.Floor
import Mathlib.Tactic.FieldSimp
import Mathlib.Tactic.Linarith
import Mathlib.Tactic.Positivity
import Polish.Proofs.Doubles

/-! # What a quotient is rounded to

A quotient of two natural numbers is rounded by its value alone: two quotients of one value, however
they are written, have the same nearest double.  A double is the nearest to itself.

* `RoundedIn x e`: the unit in which `x` is rounded is `2 ^ e`.  There is one such unit
  (`RoundedIn.unique`), and `unitExponent` finds it (`roundedIn_unitExponent`).
* `nearestBits_congr`: the nearest double is that of the value.
* `nearestBits_ratio`: a double is rounded to its own bits.
-/

namespace Polish.Number

/-! ## The value of a quotient -/

namespace Ratio

variable {r s : Ratio}

def value (r : Ratio) : ℚ :=
  r.num / r.den

theorem value_nonneg (r : Ratio) : 0 ≤ r.value :=
  div_nonneg (Nat.cast_nonneg _) (Nat.cast_nonneg _)

theorem value_eq_zero_iff (proper : 0 < r.den) : r.value = 0 ↔ r.num = 0 := by
  have some : (r.den : ℚ) ≠ 0 := Nat.cast_ne_zero.2 (Nat.ne_of_gt proper)
  simp [value, div_eq_zero_iff, some]

theorem num_eq_zero_congr (proper : 0 < r.den) (proper' : 0 < s.den) (same : r.value = s.value) :
    r.num = 0 ↔ s.num = 0 := by
  rw [← value_eq_zero_iff proper, same, value_eq_zero_iff proper']

theorem value_scale (c base : Nat) (e : Int) : (scale c base e).value = c * (base : ℚ) ^ e := by
  simp only [scale, value]
  split
  · next up =>
    obtain ⟨n, rfl⟩ := Int.eq_ofNat_of_zero_le up
    simp
  · next down =>
    obtain ⟨n, rfl⟩ := Int.exists_eq_neg_ofNat (Int.le_of_not_le down)
    simp [div_eq_mul_inv]

theorem value_unscale (r : Ratio) (base : Nat) (e : Int) :
    (r.unscale base e).value = r.value / (base : ℚ) ^ e := by
  simp only [unscale, value]
  split
  · next up =>
    obtain ⟨n, rfl⟩ := Int.eq_ofNat_of_zero_le up
    simp [div_div]
  · next down =>
    obtain ⟨n, rfl⟩ := Int.exists_eq_neg_ofNat (Int.le_of_not_le down)
    simp [mul_div_right_comm]

theorem den_scale_pos {base : Nat} (positive : 0 < base) (c : Nat) (e : Int) :
    0 < (scale c base e).den := by
  simp only [scale]
  split
  · exact Nat.one_pos
  · exact Nat.pow_pos positive

theorem den_unscale_pos {base : Nat} (positive : 0 < base) (proper : 0 < r.den) (e : Int) :
    0 < (r.unscale base e).den := by
  simp only [unscale]
  split
  · exact Nat.mul_pos proper (Nat.pow_pos positive)
  · exact proper

/-! ## Rounding to a natural number -/

theorem floor_eq (r : Ratio) : r.floor = ⌊r.value⌋₊ :=
  (Nat.floor_div_eq_div r.num r.den).symm

theorem value_sub_floor (proper : 0 < r.den) :
    r.value - r.floor = ((r.num % r.den : Nat) : ℚ) / r.den := by
  have some : (r.den : ℚ) ≠ 0 := Nat.cast_ne_zero.2 (Nat.ne_of_gt proper)
  have whole : (r.num : ℚ) = r.den * r.floor + (r.num % r.den : Nat) := by
    exact_mod_cast (Nat.div_add_mod r.num r.den).symm
  rw [value, whole]
  field_simp
  ring

theorem half_eq (proper : 0 < r.den) : r.half = compare (2 * (r.value - r.floor)) 1 := by
  have positive : (0 : ℚ) < r.den := Nat.cast_pos.2 proper
  rw [value_sub_floor proper, half, ← mul_div_assoc]
  rcases lt_trichotomy (2 * (r.num % r.den)) r.den with below | middle | above
  · rw [compare_lt_iff_lt.2 below, eq_comm, compare_lt_iff_lt, div_lt_one positive]
    exact_mod_cast below
  · rw [compare_eq_iff_eq.2 middle, eq_comm, compare_eq_iff_eq, div_eq_one_iff_eq positive.ne']
    exact_mod_cast middle
  · rw [compare_gt_iff_gt.2 above, eq_comm, compare_gt_iff_gt, one_lt_div positive]
    exact_mod_cast above

theorem nearestEven_congr (proper : 0 < r.den) (proper' : 0 < s.den) (same : r.value = s.value) :
    r.nearestEven = s.nearestEven := by
  simp only [nearestEven, half_eq proper, half_eq proper', floor_eq, same]

theorem nearestEven_of_value (proper : 0 < r.den) {n : Nat} (whole : r.value = n) :
    r.nearestEven = n := by
  have floor : r.floor = n := by rw [floor_eq, whole, Nat.floor_natCast]
  have half : r.half = .lt := by
    rw [half_eq proper, whole, floor, sub_self, mul_zero]
    exact compare_lt_iff_lt.2 one_pos
  rw [nearestEven, half, floor]

end Ratio

/-! ## The unit in which a magnitude is rounded -/

theorem binade_eq : (binade : ℚ) = 2 ^ (52 : Int) := by
  norm_num [binade]

/-- Counted in units of `2 ^ e`, the magnitude is below two binades, and at least one unless there
    is no lesser unit. -/
structure RoundedIn (x : ℚ) (e : Int) : Prop where
  least : leastExponent ≤ e
  below : x < 2 * binade * 2 ^ e
  leading : e = leastExponent ∨ binade * 2 ^ e ≤ x

namespace RoundedIn

variable {x : ℚ} {e e' : Int}

theorem not_less (rounded : RoundedIn x e) (rounded' : RoundedIn x e') : ¬e < e' := by
  intro less
  have leading : binade * 2 ^ e' ≤ x := rounded'.leading.resolve_left fun same =>
    absurd rounded.least (by omega)
  have grown : (2 : ℚ) ^ (e + 1) ≤ 2 ^ e' := zpow_le_zpow_right₀ one_le_two less
  have below := rounded.below
  rw [zpow_add_one₀ two_ne_zero] at grown
  have positive : (0 : ℚ) < binade := by norm_num [binade]
  nlinarith

theorem unique (rounded : RoundedIn x e) (rounded' : RoundedIn x e') : e = e' :=
  le_antisymm (not_lt.1 (rounded'.not_less rounded)) (not_lt.1 (rounded.not_less rounded'))

/-! Where a magnitude is located up to two binades, its unit is the lower of two or the upper one. -/

theorem of_lt {l : Int} (low : binade * 2 ^ l < x) (small : x < 2 * binade * 2 ^ max leastExponent l) :
    RoundedIn x (max leastExponent l) := by
  refine ⟨le_max_left _ _, small, ?_⟩
  rcases le_total l leastExponent with before | behind
  · exact .inl (max_eq_left before)
  · right
    rw [max_eq_right behind]
    exact low.le

theorem of_ge {l : Int} (high : x < 4 * binade * 2 ^ l)
    (large : 2 * binade * 2 ^ max leastExponent l ≤ x) : RoundedIn x (max leastExponent l + 1) := by
  have twice : (2 : ℚ) ^ (max leastExponent l + 1) = 2 * 2 ^ max leastExponent l := by
    rw [zpow_add_one₀ two_ne_zero, mul_comm]
  have grown : (2 : ℚ) ^ l ≤ 2 ^ max leastExponent l :=
    zpow_le_zpow_right₀ one_le_two (le_max_right _ _)
  refine ⟨(le_max_left _ _).trans (Int.le_add_one le_rfl), ?_, .inr ?_⟩
  · calc x < 4 * binade * 2 ^ l := high
      _ ≤ 4 * binade * 2 ^ max leastExponent l := by gcongr
      _ = 2 * binade * 2 ^ (max leastExponent l + 1) := by
        rw [twice]
        ring
  · rw [twice, mul_left_comm, ← mul_assoc]
    exact large

end RoundedIn

namespace Ratio

variable {r s : Ratio}

/-- The logarithms of the two parts locate a quotient up to two binades. -/
theorem value_bounds (proper : 0 < r.den) (some : r.num ≠ 0) :
    binade * 2 ^ ((r.num.log2 : Int) - r.den.log2 - 53) < r.value ∧
      r.value < 4 * binade * 2 ^ ((r.num.log2 : Int) - r.den.log2 - 53) := by
  have positive : (0 : ℚ) < r.den := Nat.cast_pos.2 proper
  have low : (2 : ℚ) ^ (r.num.log2 : Int) ≤ r.num := by
    exact_mod_cast Nat.log2_self_le some
  have high : (r.num : ℚ) < 2 ^ ((r.num.log2 : Int) + 1) := by
    exact_mod_cast Nat.lt_log2_self
  have low' : (2 : ℚ) ^ (r.den.log2 : Int) ≤ r.den := by
    exact_mod_cast Nat.log2_self_le (Nat.ne_of_gt proper)
  have high' : (r.den : ℚ) < 2 ^ ((r.den.log2 : Int) + 1) := by
    exact_mod_cast Nat.lt_log2_self
  have four : (4 : ℚ) = 2 ^ (2 : Int) := by norm_num
  constructor
  · rw [value, lt_div_iff₀ positive, binade_eq, ← zpow_add₀ two_ne_zero]
    calc (2 : ℚ) ^ (52 + ((r.num.log2 : Int) - r.den.log2 - 53)) * r.den
        < 2 ^ (52 + ((r.num.log2 : Int) - r.den.log2 - 53)) * 2 ^ ((r.den.log2 : Int) + 1) := by gcongr
      _ = 2 ^ (r.num.log2 : Int) := by
        rw [← zpow_add₀ two_ne_zero]
        congr 1
        ring
      _ ≤ r.num := low
  · rw [value, div_lt_iff₀ positive, binade_eq, four, ← zpow_add₀ two_ne_zero, ← zpow_add₀ two_ne_zero]
    calc (r.num : ℚ) < 2 ^ ((r.num.log2 : Int) + 1) := high
      _ = 2 ^ (2 + 52 + ((r.num.log2 : Int) - r.den.log2 - 53)) * 2 ^ (r.den.log2 : Int) := by
        rw [← zpow_add₀ two_ne_zero]
        congr 1
        ring
      _ ≤ 2 ^ (2 + 52 + ((r.num.log2 : Int) - r.den.log2 - 53)) * r.den := by gcongr

theorem floor_unscale_lt_iff (r : Ratio) (e : Int) (n : Nat) :
    (r.unscale 2 e).floor < n ↔ r.value < n * 2 ^ e := by
  have positive : (0 : ℚ) < 2 ^ e := zpow_pos two_pos e
  rw [floor_eq, Nat.floor_lt (value_nonneg _), value_unscale, Nat.cast_ofNat,
    div_lt_iff₀ positive]

theorem roundedIn_unitExponent (proper : 0 < r.den) (some : r.num ≠ 0) :
    RoundedIn r.value r.unitExponent := by
  obtain ⟨low, high⟩ := value_bounds proper some
  simp only [unitExponent, floor_unscale_lt_iff]
  push_cast
  split
  · next small => exact .of_lt low small
  · next large => exact .of_ge high (not_lt.1 large)

/-! ## The nearest double -/

theorem nearestBits_of_roundedIn (proper : 0 < r.den) (some : r.num ≠ 0) {e : Int}
    (rounded : RoundedIn r.value e) :
    r.nearestBits =
      min infinityBits ((e - leastExponent).toNat * binade + (r.unscale 2 e).nearestEven) := by
  rw [nearestBits, if_neg some, (roundedIn_unitExponent proper some).unique rounded]

theorem nearestBits_congr (proper : 0 < r.den) (proper' : 0 < s.den) (same : r.value = s.value) :
    r.nearestBits = s.nearestBits := by
  have zero := num_eq_zero_congr proper proper' same
  by_cases none : r.num = 0
  · rw [nearestBits, nearestBits, if_pos none, if_pos (zero.1 none)]
  · have some : s.num ≠ 0 := mt zero.2 none
    have unit := roundedIn_unitExponent proper' some
    rw [nearestBits_of_roundedIn proper none (same ▸ unit), nearestBits_of_roundedIn proper' some unit]
    congr 2
    apply nearestEven_congr (den_unscale_pos two_pos proper _) (den_unscale_pos two_pos proper' _)
    rw [value_unscale, value_unscale, same]

end Ratio

namespace Binary

variable {b : Binary}

theorem den_ratio_pos (b : Binary) : 0 < b.ratio.den :=
  Ratio.den_scale_pos two_pos _ _

theorem value_ratio (b : Binary) : b.ratio.value = b.significand * 2 ^ b.exponent :=
  Ratio.value_scale _ _ _

theorem num_ratio_eq_zero_iff (b : Binary) : b.ratio.num = 0 ↔ b.significand = 0 := by
  rw [← Ratio.value_eq_zero_iff b.den_ratio_pos, value_ratio,
    mul_eq_zero_iff_right (zpow_pos two_pos _).ne', Nat.cast_eq_zero]

theorem Canonical.roundedIn (canonical : b.Canonical) : RoundedIn b.ratio.value b.exponent := by
  have positive : (0 : ℚ) < 2 ^ b.exponent := zpow_pos two_pos _
  rw [value_ratio]
  refine ⟨canonical.least, ?_, canonical.leading.imp_right fun leading => ?_⟩
  · exact mul_lt_mul_of_pos_right (by exact_mod_cast canonical.bounded) positive
  · exact mul_le_mul_of_nonneg_right (by exact_mod_cast leading) positive.le

/-- A double is the one nearest to its own value. -/
theorem Canonical.nearestBits_ratio (canonical : b.Canonical) (finite : b.bits < infinityBits) :
    b.ratio.nearestBits = b.bits := by
  by_cases none : b.significand = 0
  · have least : b.exponent = leastExponent :=
      canonical.leading.resolve_right fun leading => by
        rw [none] at leading
        exact absurd leading (by decide)
    rw [Ratio.nearestBits, if_pos (b.num_ratio_eq_zero_iff.2 none), bits, none, least]
    rfl
  · have positive : (2 : ℚ) ^ b.exponent ≠ 0 := (zpow_pos two_pos _).ne'
    have whole : (b.ratio.unscale 2 b.exponent).value = b.significand := by
      rw [Ratio.value_unscale, value_ratio, Nat.cast_ofNat, mul_div_cancel_right₀ _ positive]
    rw [Ratio.nearestBits_of_roundedIn b.den_ratio_pos (mt b.num_ratio_eq_zero_iff.1 none)
        canonical.roundedIn,
      Ratio.nearestEven_of_value (Ratio.den_unscale_pos two_pos b.den_ratio_pos _) whole]
    exact min_eq_right finite.le

end Binary

end Polish.Number
