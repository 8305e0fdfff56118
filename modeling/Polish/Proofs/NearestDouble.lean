import Polish.Proofs.Decimals

/-! # The double that a magnitude is rounded to

Of all doubles the nearest one is taken, of two that are equally near the one whose last bit is zero,
and beyond the largest double, from half a unit on, infinity.

* `magnitude` is what the bits of a double stand for; more bits stand for more (`strictMono_magnitude`).
* `Nearest` says it of bits.  `nearest_nearestBits` is about quotients, and `Decimal.nearest_bits` about
  decimals, those whose size is told from their place included.
* `Rounds` says it of doubles.  `Rounds.unique`: there is only one double to round to.
* `Decimal.rounds`: the double that a decimal reads as is the one that its value is rounded to.
-/

namespace Polish.Number

open Float.Model (UnpackedFloat Format)
open Float.Model.UnpackedFloat

variable {x : ℚ} {n : Nat}

/-! ## What bits stand for -/

/-- The number that the bits of a magnitude stand for.  The bits of infinity stand for the power of two
    behind the largest double, which would be the next one. -/
def magnitude (bits : Nat) : ℚ :=
  if bits < binade then bits * 2 ^ leastExponent
  else (binade + bits % binade : Nat) * 2 ^ (leastExponent + (bits / binade - 1 : Nat))

theorem binade_pos : 0 < binade := by decide

/-- Up to the end of the next binade, bits count units of the same size. -/
theorem magnitude_units {e : Int} {m : Nat} (least : leastExponent ≤ e) (fits : m ≤ 2 * binade)
    (leading : e = leastExponent ∨ binade ≤ m) :
    magnitude ((e - leastExponent).toNat * binade + m) = m * 2 ^ e := by
  obtain ⟨k, count⟩ := Int.eq_ofNat_of_zero_le (Int.sub_nonneg_of_le least)
  obtain rfl : e = leastExponent + k := by omega
  have some := binade_pos
  rw [count, Int.toNat_natCast]
  by_cases small : m < binade
  · have none : k = 0 := by omega
    rw [none, Nat.zero_mul, Nat.zero_add, magnitude, if_pos small, Int.natCast_zero, add_zero]
  obtain ⟨rest, rfl⟩ := Nat.exists_eq_add_of_le (Nat.le_of_not_lt small)
  have large : ¬ k * binade + (binade + rest) < binade := by omega
  rw [magnitude, if_neg large]
  obtain below | full : rest < binade ∨ rest = binade := by omega
  · have split : k * binade + (binade + rest) = rest + (k + 1) * binade := by ring
    rw [split, Nat.add_mul_mod_self_right, Nat.mod_eq_of_lt below, Nat.add_mul_div_right _ _ some,
      Nat.div_eq_of_lt below, Nat.zero_add, Nat.add_sub_cancel]
  · have split : k * binade + (binade + binade) = 0 + (k + 2) * binade := by ring
    have grown : leastExponent + ((k + 1 : Nat) : Int) = leastExponent + k + 1 := by
      push_cast
      ring
    rw [full, split, Nat.add_mul_mod_self_right, Nat.zero_mod, Nat.add_mul_div_right _ _ some,
      Nat.zero_div, Nat.zero_add, Nat.add_zero, show k + 2 - 1 = k + 1 from rfl, grown,
      zpow_add_one₀ two_ne_zero]
    push_cast
    ring

theorem exists_units (n : Nat) : ∃ (e : Int) (m : Nat), leastExponent ≤ e ∧ m < 2 * binade ∧
    (e = leastExponent ∨ binade ≤ m) ∧ n = (e - leastExponent).toNat * binade + m := by
  have rest : n % binade < binade := Nat.mod_lt _ binade_pos
  have split := Nat.div_add_mod n binade
  by_cases small : n < binade
  · exact ⟨leastExponent, n, le_rfl, by omega, .inl rfl, by simp⟩
  · have some : n / binade ≠ 0 := (Nat.div_pos (Nat.le_of_not_lt small) binade_pos).ne'
    obtain ⟨k, count⟩ := Nat.exists_eq_succ_of_ne_zero some
    refine ⟨leastExponent + k, binade + n % binade, by omega, by omega, .inr (by omega), ?_⟩
    rw [add_sub_cancel_left, Int.toNat_natCast]
    rw [count, Nat.succ_eq_add_one, Nat.mul_add, Nat.mul_one, Nat.mul_comm] at split
    omega

theorem strictMono_magnitude : StrictMono magnitude := by
  refine strictMono_nat_of_lt_succ fun n => ?_
  obtain ⟨e, m, least, fits, leading, rfl⟩ := exists_units n
  rw [Nat.add_assoc, magnitude_units least fits.le leading,
    magnitude_units least fits (leading.imp_right Nat.le_succ_of_le)]
  exact mul_lt_mul_of_pos_right (by exact_mod_cast m.lt_succ_self) (zpow_pos two_pos _)

theorem magnitude_zero : magnitude 0 = 0 := by
  simp [magnitude, binade_pos]

theorem magnitude_one : magnitude 1 = 2 ^ leastExponent := by
  rw [magnitude, if_pos (by decide), Nat.cast_one, one_mul]

theorem magnitude_pos (some : 0 < n) : 0 < magnitude n := by
  rw [← magnitude_zero]
  exact strictMono_magnitude some

theorem magnitude_infinityBits : magnitude infinityBits = 2 ^ (1024 : Int) := by
  have large : ¬ infinityBits < binade := by decide
  have field : infinityBits / binade - 1 = 2046 := by decide
  have rest : infinityBits % binade = 0 := by decide
  rw [magnitude, if_neg large, field, rest, Nat.add_zero, binade_eq, ← zpow_add₀ two_ne_zero]
  rfl

/-! ## The nearest bits -/

/-- No other bits are nearer to `x`, and if others are equally near, these are the even ones. -/
structure Nearest (x : ℚ) (n : Nat) : Prop where
  bounded : n ≤ infinityBits
  closest : ∀ m ≤ infinityBits, |x - magnitude n| ≤ |x - magnitude m|
  even : ∀ m ≤ infinityBits, m ≠ n → |x - magnitude n| = |x - magnitude m| → n % 2 = 0

/-! Which of two numbers is nearer depends on which side of their middle one is. -/

theorem lower_nearer_iff {a b : ℚ} (less : a < b) : |x - a| < |x - b| ↔ 2 * x < a + b := by
  obtain ⟨lower, _⟩ | ⟨lower, _⟩ := abs_cases (x - a) <;>
    obtain ⟨upper, _⟩ | ⟨upper, _⟩ := abs_cases (x - b) <;>
    rw [lower, upper] <;> constructor <;> intro <;> linarith

theorem upper_nearer_iff {a b : ℚ} (less : a < b) : |x - b| < |x - a| ↔ a + b < 2 * x := by
  obtain ⟨lower, _⟩ | ⟨lower, _⟩ := abs_cases (x - a) <;>
    obtain ⟨upper, _⟩ | ⟨upper, _⟩ := abs_cases (x - b) <;>
    rw [lower, upper] <;> constructor <;> intro <;> linarith

theorem nearest_of_between (bounded : n ≤ infinityBits)
    (below : ∀ m < n, magnitude m + magnitude n < 2 * x)
    (above : ∀ m ≤ infinityBits, n < m → 2 * x < magnitude n + magnitude m) : Nearest x n := by
  have nearer (m : Nat) (le : m ≤ infinityBits) (other : m ≠ n) :
      |x - magnitude n| < |x - magnitude m| := by
    obtain less | greater := Nat.lt_or_gt_of_ne other
    · exact (upper_nearer_iff (strictMono_magnitude less)).2 (below m less)
    · exact (lower_nearer_iff (strictMono_magnitude greater)).2 (above m le greater)
  refine ⟨bounded, fun m le => ?_, fun m le other same => absurd same (nearer m le other).ne⟩
  obtain rfl | other := eq_or_ne m n
  · exact le_rfl
  · exact (nearer m le other).le

theorem nearest_lower (finite : n < infinityBits) (low : magnitude n ≤ x)
    (half : 2 * x < magnitude n + magnitude (n + 1)) : Nearest x n := by
  refine nearest_of_between finite.le (fun m less => ?_) fun m _ greater => ?_
  · have := strictMono_magnitude less
    linarith
  · have := strictMono_magnitude.monotone (Nat.succ_le_of_lt greater)
    linarith

theorem nearest_upper (finite : n < infinityBits) (high : x ≤ magnitude (n + 1))
    (half : magnitude n + magnitude (n + 1) < 2 * x) : Nearest x (n + 1) := by
  refine nearest_of_between finite (fun m less => ?_) fun m _ greater => ?_
  · have := strictMono_magnitude.monotone (Nat.le_of_lt_succ less)
    linarith
  · have := strictMono_magnitude greater
    linarith

/-- In the middle of two neighbours both are the nearest, and the even one of them is taken. -/
theorem nearest_middle (finite : n < infinityBits)
    (half : 2 * x = magnitude n + magnitude (n + 1)) : Nearest x (n + n % 2) := by
  have gap := strictMono_magnitude n.lt_succ_self
  have same : |x - magnitude (n + 1)| = |x - magnitude n| :=
    le_antisymm (not_lt.1 (mt (lower_nearer_iff gap).1 half.not_lt))
      (not_lt.1 (mt (upper_nearer_iff gap).1 half.not_gt))
  have taken : |x - magnitude (n + n % 2)| = |x - magnitude n| := by
    obtain even | odd := Nat.mod_two_eq_zero_or_one n
    · rw [even, Nat.add_zero]
    · rw [odd, same]
  refine ⟨by omega, fun m _ => ?_, fun _ _ _ _ => by omega⟩
  rw [taken]
  obtain less | rfl | greater := lt_trichotomy m n
  · refine ((upper_nearer_iff (strictMono_magnitude less)).2 ?_).le
    have := strictMono_magnitude less
    linarith
  · exact le_rfl
  · refine not_lt.1 (mt (upper_nearer_iff (strictMono_magnitude greater)).1 ?_)
    have := strictMono_magnitude.monotone (Nat.succ_le_of_lt greater)
    linarith

/-- Below half of the least double, zero is the nearest. -/
theorem nearest_zero (small : 2 * x < magnitude 1) : Nearest x 0 := by
  refine nearest_of_between (Nat.zero_le _) (fun m less => absurd less m.not_lt_zero)
    fun m _ greater => ?_
  have := strictMono_magnitude.monotone greater
  rw [magnitude_zero, zero_add]
  linarith

theorem nearest_infinity (beyond : magnitude infinityBits ≤ x) : Nearest x infinityBits := by
  refine nearest_of_between le_rfl (fun m less => ?_) fun m le greater => absurd greater le.not_gt
  have := strictMono_magnitude less
  linarith

/-- Between `m` units and one more, these two are neighbours among the doubles, and the half decides. -/
theorem nearest_units {e : Int} {m : Nat} (least : leastExponent ≤ e) (fits : m < 2 * binade)
    (leading : e = leastExponent ∨ binade ≤ m) (low : m * 2 ^ e ≤ x) (high : x < (m + 1) * 2 ^ e) :
    Nearest x (min infinityBits ((e - leastExponent).toNat * binade +
      match compare (2 * (x / 2 ^ e - m)) 1 with
      | .lt => m
      | .eq => m + m % 2
      | .gt => m + 1)) := by
  have positive : (0 : ℚ) < 2 ^ e := zpow_pos two_pos e
  have here := magnitude_units least fits.le leading
  have next := magnitude_units (m := m + 1) least fits (leading.imp_right Nat.le_succ_of_le)
  have even : ((e - leastExponent).toNat * binade + m) % 2 = m % 2 := by
    rw [binade]
    omega
  rw [← Nat.add_assoc] at next
  generalize (e - leastExponent).toNat * binade = before at *
  push_cast at next
  have offset : 2 * x - (magnitude (before + m) + magnitude (before + m + 1)) =
      (2 * (x / 2 ^ e - m) - 1) * 2 ^ e := by
    rw [here, next]
    field_simp
    ring
  rw [← here] at low
  rw [← next] at high
  by_cases finite : before + m < infinityBits
  · obtain less | middle | more := lt_trichotomy (2 * (x / 2 ^ e - m)) 1
    · rw [compare_lt_iff_lt.2 less, Nat.min_eq_right finite.le]
      refine nearest_lower finite low (sub_neg.1 ?_)
      rw [offset]
      exact mul_neg_of_neg_of_pos (sub_neg.2 less) positive
    · rw [compare_eq_iff_eq.2 middle]
      simp only
      rw [← Nat.add_assoc, ← even, Nat.min_eq_right (by omega)]
      refine nearest_middle finite (sub_eq_zero.1 ?_)
      rw [offset, middle, sub_self, zero_mul]
    · rw [compare_gt_iff_gt.2 more]
      simp only
      rw [← Nat.add_assoc, Nat.min_eq_right finite]
      refine nearest_upper finite high.le (sub_pos.1 ?_)
      rw [offset]
      exact mul_pos (sub_pos.2 more) positive
  · have beyond : infinityBits ≤ before + m := Nat.le_of_not_lt finite
    rw [Nat.min_eq_left]
    · exact nearest_infinity ((strictMono_magnitude.monotone beyond).trans low)
    · refine beyond.trans (Nat.add_le_add_left ?_ before)
      split
      · exact le_rfl
      · exact Nat.le_add_right _ _
      · exact Nat.le_succ _

namespace Ratio

variable {r : Ratio}

theorem floor_unscale_mul_le (r : Ratio) (e : Int) :
    (r.unscale 2 e).floor * 2 ^ e ≤ r.value ∧ r.value < ((r.unscale 2 e).floor + 1) * 2 ^ e := by
  have below := (r.floor_unscale_lt_iff e ((r.unscale 2 e).floor + 1)).1 (Nat.lt_succ_self _)
  have above := mt (r.floor_unscale_lt_iff e (r.unscale 2 e).floor).2 (lt_irrefl _)
  push_cast at below
  exact ⟨not_lt.1 above, below⟩

/-- The bits that a quotient is rounded to are the nearest. -/
theorem nearest_nearestBits (proper : 0 < r.den) : Nearest r.value r.nearestBits := by
  by_cases none : r.num = 0
  · have zero : r.value = 0 := (value_eq_zero_iff proper).2 none
    rw [nearestBits, if_pos none]
    exact nearest_zero (by rw [zero, mul_zero]; exact magnitude_pos Nat.one_pos)
  have rounded := roundedIn_unitExponent proper none
  have half := half_eq (den_unscale_pos two_pos proper r.unitExponent)
  obtain ⟨low, high⟩ := r.floor_unscale_mul_le r.unitExponent
  have positive : (0 : ℚ) < 2 ^ r.unitExponent := zpow_pos two_pos _
  have fits : (r.unscale 2 r.unitExponent).floor < 2 * binade := by
    have below := lt_of_mul_lt_mul_right (lt_of_le_of_lt low rounded.below) positive.le
    exact_mod_cast below
  have leading : r.unitExponent = leastExponent ∨ binade ≤ (r.unscale 2 r.unitExponent).floor :=
    rounded.leading.imp_right fun leading => by
      have below := lt_of_mul_lt_mul_right (lt_of_le_of_lt leading high) positive.le
      exact Nat.le_of_lt_succ (by exact_mod_cast below)
  rw [value_unscale, Nat.cast_ofNat] at half
  rw [nearestBits, if_neg none]
  simp only [nearestEven, half]
  exact nearest_units rounded.least fits leading low high

end Ratio

namespace Decimal

variable {d : Decimal}

/-- The power of ten below which a magnitude is less than half of the least double. -/
theorem two_pow_le_ten_pow_of_underflow : 2 ^ 1075 ≤ 10 ^ 330 := by
  decide +kernel

theorem two_mul_ten_pow_le : 2 * ((10 : Nat) : ℚ) ^ (-330 : Int) ≤ 2 ^ leastExponent := by
  have powers : (2 : ℚ) ^ (1075 : Int) ≤ ((10 : Nat) : ℚ) ^ (330 : Int) := by
    exact_mod_cast two_pow_le_ten_pow_of_underflow
  have twice : (2 : ℚ) ^ (1075 : Int) = 2 * 2 ^ (1074 : Int) := (zpow_one_add₀ two_ne_zero 1074)
  rw [leastExponent, zpow_neg, zpow_neg, ← div_eq_mul_inv, div_le_iff₀ (zpow_pos (by norm_num) _),
    inv_mul_eq_div, le_div_iff₀ (zpow_pos two_pos _), ← twice]
  exact powers

/-- The bits that a decimal reads as are the nearest, those included that its place tells alone. -/
theorem nearest_bits (d : Decimal) : Nearest d.value d.bits := by
  by_cases none : d.coefficient = 0
  · have zero : d.value = 0 := value_eq_zero_iff.2 none
    rw [bits, if_pos none]
    exact nearest_zero (by rw [zero, mul_zero]; exact magnitude_pos Nat.one_pos)
  have log := place_eq none
  by_cases large : overflowPlace ≤ d.place
  · have least : ((10 : Nat) : ℚ) ^ (310 : Int) ≤ d.value :=
      (Int.zpow_le_iff_le_log (by decide) (value_pos none)).2 (by
        rw [overflowPlace] at large
        omega)
    have powers : (2 : ℚ) ^ (1024 : Int) ≤ ((10 : Nat) : ℚ) ^ (310 : Int) := by
      exact_mod_cast Binary.two_pow_le_ten_pow.1
    rw [bits, if_neg none, if_pos large]
    refine nearest_infinity ?_
    rw [magnitude_infinityBits]
    exact powers.trans least
  by_cases small : d.place ≤ underflowPlace
  · have below : d.value < ((10 : Nat) : ℚ) ^ (-330 : Int) :=
      (Int.lt_zpow_iff_log_lt (by decide) (value_pos none)).2 (by
        rw [underflowPlace] at small
        omega)
    rw [bits, if_neg none, if_neg large, if_pos small]
    refine nearest_zero ?_
    calc 2 * d.value < 2 * ((10 : Nat) : ℚ) ^ (-330 : Int) := by linarith
      _ ≤ 2 ^ leastExponent := two_mul_ten_pow_le
      _ = magnitude 1 := magnitude_one.symm
  · rw [bits, if_neg none, if_neg large, if_neg small, ← value_ratio]
    exact Ratio.nearest_nearestBits d.den_ratio_pos

end Decimal

/-! ## The nearest double -/

/-- The number that a finite double is, without its sign. -/
def absolute (v : Float) : ℚ :=
  match v.toModel.unpack with
  | .finite _ mantissa exponent _ => mantissa * 2 ^ exponent
  | _ => 0

variable {v w : Float} {negative : Bool}

theorem absolute_eq (finite : v.isFinite = true) : absolute v = magnitude (magnitudeBits v) := by
  have parts := unpacks v
  have split := Nat.div_add_mod (magnitudeBits v) binade
  have below : magnitudeBits v % binade < binade := Nat.mod_lt _ binade_pos
  have field : magnitudeBits v / binade < 2047 := Nat.div_lt_of_lt_mul (isFinite_iff.1 finite)
  rw [absolute]
  generalize v.toModel.unpack = u at parts
  generalize magnitudeBits v = n at *
  generalize n / binade = count at *
  generalize n % binade = rest at *
  cases parts with
  | infinity => exact absurd field (lt_irrefl _)
  | notANumber => exact absurd field (lt_irrefl _)
  | zero =>
    rw [← split]
    exact magnitude_zero.symm
  | subnormal =>
    rw [← split, Nat.mul_zero, Nat.zero_add, magnitude, if_pos below]
  | @normal _ k _ _ _ =>
    have least : leastExponent ≤ leastExponent + (k : Int) := by omega
    have units := magnitude_units least (show binade + rest ≤ 2 * binade by omega)
      (.inr (Nat.le_add_right _ _))
    rw [add_sub_cancel_left, Int.toNat_natCast] at units
    rw [← split, Nat.mul_add, Nat.mul_one, Nat.add_assoc, Nat.mul_comm binade k, units]

/-- The double that a magnitude with a sign is rounded to.  It is infinite from half a unit behind the
    largest double on.  Otherwise no other finite double is nearer, and if another one is equally near,
    then its own last bit is zero. -/
structure Rounds (negative : Bool) (x : ℚ) (v : Float) : Prop where
  sign : isNegative v = negative
  number : v.isNaN = false
  finite : v.isFinite = true ↔ x < 2 ^ (1024 : Int) - 2 ^ (970 : Int)
  closest : v.isFinite = true → ∀ w : Float, w.isFinite = true → |x - absolute v| ≤ |x - absolute w|
  even : v.isFinite = true → ∀ w : Float, w.isFinite = true → absolute w ≠ absolute v →
    |x - absolute v| = |x - absolute w| → v.toBits.toNat % 2 = 0

theorem toNat_toBits_mod_two (v : Float) : v.toBits.toNat % 2 = magnitudeBits v % 2 := by
  have even : signBit % 2 = 0 := by decide
  rw [magnitudeBits, Nat.mod_mod_of_dvd _ (Nat.dvd_of_mod_eq_zero even)]

/-- Half a unit behind the largest double. -/
theorem magnitude_add_magnitude_infinityBits :
    magnitude (infinityBits - 1) + magnitude infinityBits =
      2 * (2 ^ (1024 : Int) - 2 ^ (970 : Int)) := by
  have units := magnitude_units (e := 971) (m := 2 * binade - 1) (by decide) (by decide)
    (.inr (by decide))
  have bits : ((971 : Int) - leastExponent).toNat * binade + (2 * binade - 1) = infinityBits - 1 := by
    decide
  rw [← bits, units, magnitude_infinityBits]
  have last : (2 : ℚ) ^ (1024 : Int) = 2 ^ 54 * 2 ^ (970 : Int) := zpow_add₀ two_ne_zero 54 970
  have unit : (2 : ℚ) ^ (971 : Int) = 2 ^ (970 : Int) * 2 := zpow_add_one₀ two_ne_zero 970
  rw [last, unit, binade]
  generalize (2 : ℚ) ^ (970 : Int) = half
  push_cast
  ring

namespace Nearest

theorem finite_iff (nearest : Nearest x n) :
    n < infinityBits ↔ x < 2 ^ (1024 : Int) - 2 ^ (970 : Int) := by
  have middle := magnitude_add_magnitude_infinityBits
  have largest : infinityBits - 1 < infinityBits := by decide
  constructor
  · intro less
    by_contra beyond
    have upper : magnitude n ≤ magnitude (infinityBits - 1) :=
      strictMono_magnitude.monotone (Nat.le_pred_of_lt less)
    have nearer := mt (lower_nearer_iff (x := x) (strictMono_magnitude less)).1 (by linarith)
    have same := le_antisymm (nearest.closest _ le_rfl) (not_lt.1 nearer)
    have other := mt (upper_nearer_iff (x := x) (strictMono_magnitude less)).2 same.not_gt
    have last : infinityBits - 1 ≤ n := strictMono_magnitude.le_iff_le.1 (by linarith)
    have odd : (infinityBits - 1) % 2 = 1 := by decide
    have even := nearest.even _ le_rfl less.ne' same
    obtain rfl : n = infinityBits - 1 := by omega
    omega
  · intro below
    refine lt_of_le_of_ne nearest.bounded fun infinite => ?_
    have nearer := (lower_nearer_iff (strictMono_magnitude largest)).2
      (show 2 * x < magnitude (infinityBits - 1) + magnitude infinityBits by linarith)
    have closest := nearest.closest _ largest.le
    rw [infinite] at closest
    exact absurd nearer closest.not_gt

theorem rounds (nearest : Nearest x n) (negative : Bool) : Rounds negative x (ofMagnitude negative n) := by
  have bits := magnitudeBits_ofMagnitude negative nearest.bounded
  refine ⟨isNegative_ofMagnitude negative nearest.bounded, ?_, ?_, ?_, ?_⟩
  · rw [← Bool.not_eq_true, isNaN_iff, bits]
    exact nearest.bounded.not_gt
  · rw [isFinite_iff, bits, nearest.finite_iff]
  · intro finite w other
    rw [absolute_eq finite, absolute_eq other, bits]
    exact nearest.closest _ (isFinite_iff.1 other).le
  · intro finite w other distinct same
    rw [absolute_eq finite, absolute_eq other, bits] at distinct same
    rw [toNat_toBits_mod_two, bits]
    exact nearest.even _ (isFinite_iff.1 other).le (fun equal => distinct (by rw [equal])) same

end Nearest

namespace Rounds

theorem isInf (rounds : Rounds negative x v) (beyond : 2 ^ (1024 : Int) - 2 ^ (970 : Int) ≤ x) :
    v.isInf = true := by
  refine isInf_iff.2 (magnitudeBits_eq_infinityBits rounds.number fun finite => ?_)
  exact absurd (rounds.finite.1 finite) beyond.not_gt

/-- Two finite doubles that are equally near with a double between them are not the nearest. -/
theorem not_lt (left : Rounds negative x v) (right : Rounds negative x w) (finite : v.isFinite = true) :
    ¬ magnitudeBits v < magnitudeBits w := by
  intro less
  have other : w.isFinite = true := right.finite.2 (left.finite.1 finite)
  have bound := isFinite_iff.1 other
  have closest := left.closest finite
  have nearest := right.closest other
  have same := le_antisymm (closest w other) (nearest v finite)
  have apart : absolute v ≠ absolute w := by
    rw [absolute_eq finite, absolute_eq other]
    exact (strictMono_magnitude less).ne
  have even := left.even finite w other apart.symm same
  have even' := right.even other v finite apart same.symm
  rw [toNat_toBits_mod_two] at even even'
  have middle : magnitudeBits v + 1 < magnitudeBits w := by omega
  have between : magnitudeBits v + 1 < infinityBits := middle.trans bound
  have bits := magnitudeBits_ofMagnitude false between.le
  have within : (ofMagnitude false (magnitudeBits v + 1)).isFinite = true := by
    rwa [isFinite_iff, bits]
  have lower := closest _ within
  have upper := nearest _ within
  rw [absolute_eq within, bits] at lower upper
  rw [absolute_eq finite] at lower
  rw [absolute_eq other] at upper
  have low := mt (upper_nearer_iff (strictMono_magnitude (Nat.lt_succ_self _))).2 lower.not_gt
  have high := mt (lower_nearer_iff (strictMono_magnitude middle)).2 upper.not_gt
  have gap := strictMono_magnitude less
  linarith

theorem unique (left : Rounds negative x v) (right : Rounds negative x w) : v = w := by
  have bits : magnitudeBits v = magnitudeBits w := by
    by_cases finite : v.isFinite = true
    · have other : w.isFinite = true := right.finite.2 (left.finite.1 finite)
      exact le_antisymm (Nat.le_of_not_lt (right.not_lt left other))
        (Nat.le_of_not_lt (left.not_lt right finite))
    · have other : w.isFinite ≠ true := fun other => finite (left.finite.2 (right.finite.1 other))
      rw [magnitudeBits_eq_infinityBits left.number finite,
        magnitudeBits_eq_infinityBits right.number other]
  rw [← ofMagnitude_magnitudeBits v, ← ofMagnitude_magnitudeBits w, left.sign, right.sign, bits]

/-- Up to half of the least double, zero is taken. -/
theorem absolute_eq_zero (rounds : Rounds negative x v) (small : x ≤ 2 ^ (-1075 : Int)) :
    v.isFinite = true ∧ absolute v = 0 := by
  have nearest : Nearest x 0 := by
    have twice : 2 * (2 : ℚ) ^ (-1075 : Int) = magnitude 1 := by
      rw [magnitude_one]
      exact (zpow_one_add₀ two_ne_zero (-1075)).symm
    obtain less | rfl := small.lt_or_eq
    · exact nearest_zero (by linarith)
    · exact nearest_middle (n := 0) (by decide) (by rw [twice, magnitude_zero, zero_add])
  have finite : v.isFinite = true := by
    rw [rounds.finite, ← nearest.finite_iff]
    decide
  rw [rounds.unique (nearest.rounds negative)] at finite ⊢
  rw [absolute_eq finite, magnitudeBits_ofMagnitude negative nearest.bounded]
  exact ⟨finite, magnitude_zero⟩

end Rounds

/-- The double that a decimal reads as. -/
theorem Decimal.rounds (d : Decimal) (negative : Bool) :
    Rounds negative d.value (ofMagnitude negative d.bits) :=
  d.nearest_bits.rounds negative

end Polish.Number
