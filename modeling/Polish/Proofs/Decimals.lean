import Mathlib.Data.Int.Log
import Mathlib.Data.List.TakeWhile
import Polish.Number.Shortest
import Polish.Proofs.Rounding

/-! # Decimals and the doubles they read as

Two decimals of one value read as the same double, whatever zeros end their digits, and the decimal
written for a finite double is one that reads back.

* `digitsValue_digits`: the digits of a number stand for it.
* `Decimal.bits_congr`: the double that a decimal reads as is that of its value.
* `bits_shortest`: the decimal written for a double reads as that double.
-/

namespace Polish.Number

/-! ## Digits -/

@[simp] theorem digitsValue_digits (n : Nat) : digitsValue (digits n) = n :=
  Nat.ofDigitChars_ten_toDigits

theorem digitsValue_append (ds es : List Char) :
    digitsValue (ds ++ es) = Nat.pow 10 es.length * digitsValue ds + digitsValue es :=
  (Nat.ofDigitChars_append 0).trans Nat.ofDigitChars_eq_ofDigitChars_zero

theorem digitsValue_append_zeros (ds : List Char) (n : Nat) :
    digitsValue (ds ++ List.replicate n '0') = Nat.pow 10 n * digitsValue ds :=
  (Nat.ofDigitChars_append 0).trans Nat.ofDigitChars_replicate_zero

theorem digitsValue_zeros_append (n : Nat) (ds : List Char) :
    digitsValue (List.replicate n '0' ++ ds) = digitsValue ds :=
  (Nat.ofDigitChars_append 0).trans (congrArg _ Nat.ofDigitChars_replicate_zero)

theorem digits_ne_nil (n : Nat) : digits n ≠ [] :=
  Nat.toDigits_ne_nil

theorem lt_pow_length_digits (n : Nat) : n < 10 ^ (digits n).length :=
  (Nat.length_toDigits_le_iff (by decide) (List.length_pos_iff.2 (digits_ne_nil n))).1 le_rfl

theorem pow_length_digits_le {n : Nat} (some : n ≠ 0) : 10 ^ ((digits n).length - 1) ≤ n := by
  rcases Nat.eq_zero_or_pos ((digits n).length - 1) with one | more
  · rw [one]
    exact Nat.pos_of_ne_zero some
  · refine Nat.le_of_not_lt fun below => ?_
    have short := (Nat.length_toDigits_le_iff (by decide) more).2 below
    have whole : (Nat.toDigits 10 n).length = (digits n).length := rfl
    omega

/-- The zeros that end the digits of a number are factors of ten. -/
theorem pow_trailingZeros_dvd (n : Nat) :
    Nat.pow 10 ((digits n).reverse.takeWhile (· == '0')).length ∣ n := by
  have zero (c : Char) (member : c ∈ (digits n).reverse.takeWhile (· == '0')) : c = '0' :=
    eq_of_beq (List.mem_takeWhile_imp (p := (· == '0')) member)
  have zeros := List.eq_replicate_of_mem zero
  have whole : digits n = ((digits n).reverse.dropWhile (· == '0')).reverse ++
      List.replicate ((digits n).reverse.takeWhile (· == '0')).length '0' := by
    rw [← List.reverse_replicate, ← zeros, ← List.reverse_append, List.takeWhile_append_dropWhile,
      List.reverse_reverse]
  have value := congrArg digitsValue whole
  rw [digitsValue_digits, digitsValue_append_zeros] at value
  exact ⟨_, value⟩

/-! ## The value of a decimal -/

namespace Decimal

variable {d d' : Decimal}

def value (d : Decimal) : ℚ :=
  d.coefficient * 10 ^ d.exponent

theorem den_ratio_pos (d : Decimal) : 0 < d.ratio.den :=
  Ratio.den_scale_pos (by decide) _ _

theorem value_ratio (d : Decimal) : d.ratio.value = d.value :=
  Ratio.value_scale _ _ _

theorem value_eq_zero_iff : d.value = 0 ↔ d.coefficient = 0 := by
  have positive : (0 : ℚ) < 10 ^ d.exponent := zpow_pos (by norm_num) _
  rw [value, mul_eq_zero_iff_right positive.ne', Nat.cast_eq_zero]

theorem value_pos (some : d.coefficient ≠ 0) : 0 < d.value :=
  mul_pos (Nat.cast_pos.2 (Nat.pos_of_ne_zero some)) (zpow_pos (by norm_num) _)

theorem place_eq (some : d.coefficient ≠ 0) : d.place = Int.log 10 d.value + 1 := by
  have positive : (0 : ℚ) < 10 ^ d.exponent := zpow_pos (by norm_num) _
  have length : 0 < (digits d.coefficient).length := List.length_pos_iff.2 (digits_ne_nil _)
  have below : d.value < ((10 : Nat) : ℚ) ^ d.place := by
    rw [place, zpow_add₀ (by norm_num), value, Nat.cast_ofNat, mul_lt_mul_iff_left₀ positive]
    exact_mod_cast lt_pow_length_digits d.coefficient
  have least : ((10 : Nat) : ℚ) ^ (d.place - 1) ≤ d.value := by
    rw [place, show ((digits d.coefficient).length : Int) + d.exponent - 1 =
        ((digits d.coefficient).length - 1 : Nat) + d.exponent by omega,
      zpow_add₀ (by norm_num), value, Nat.cast_ofNat, mul_le_mul_iff_left₀ positive]
    exact_mod_cast pow_length_digits_le some
  rw [Int.lt_zpow_iff_log_lt (by decide) (value_pos some)] at below
  rw [Int.zpow_le_iff_le_log (by decide) (value_pos some)] at least
  omega

/-- The double that a decimal reads as is that of its value. -/
theorem bits_congr (same : d.value = d'.value) : d.bits = d'.bits := by
  have rounded : d.ratio.nearestBits = d'.ratio.nearestBits :=
    Ratio.nearestBits_congr d.den_ratio_pos d'.den_ratio_pos (by rw [value_ratio, value_ratio, same])
  have zero : d.coefficient = 0 ↔ d'.coefficient = 0 := by
    rw [← value_eq_zero_iff, same, value_eq_zero_iff]
  by_cases none : d.coefficient = 0
  · rw [bits, bits, if_pos none, if_pos (zero.1 none)]
  · have some : d'.coefficient ≠ 0 := mt zero.2 none
    rw [bits, bits, if_neg none, if_neg some, place_eq none, place_eq some, same, rounded]

/-- Within the range of the doubles the place of the leading digit settles nothing. -/
theorem bits_eq_nearestBits (below : d.value < 10 ^ (310 : Int))
    (least : d.coefficient ≠ 0 → 10 ^ (-330 : Int) ≤ d.value) : d.bits = d.ratio.nearestBits := by
  by_cases none : d.coefficient = 0
  · have zero : d.ratio.num = 0 := by
      rwa [← Ratio.value_eq_zero_iff d.den_ratio_pos, value_ratio, value_eq_zero_iff]
    rw [bits, Ratio.nearestBits, if_pos none, if_pos zero]
  · have high : Int.log 10 d.value < 310 :=
      (Int.lt_zpow_iff_log_lt (by decide) (value_pos none)).1 (by exact_mod_cast below)
    have low : -330 ≤ Int.log 10 d.value :=
      (Int.zpow_le_iff_le_log (by decide) (value_pos none)).1 (by exact_mod_cast least none)
    rw [bits, if_neg none, place_eq none, if_neg, if_neg]
    · simp only [underflowPlace]
      omega
    · simp only [overflowPlace]
      omega

theorem value_trimZeros (d : Decimal) : d.trimZeros.value = d.value := by
  by_cases none : d.coefficient = 0
  · rw [trimZeros, if_pos none, value, value, none]
    simp
  · simp only [trimZeros, if_neg none, value]
    obtain ⟨rest, whole⟩ := pow_trailingZeros_dvd d.coefficient
    generalize ((digits d.coefficient).reverse.takeWhile (· == '0')).length = zeros at whole ⊢
    rw [whole, Nat.pow_eq, Nat.mul_div_cancel_left _ (Nat.pow_pos (by decide)),
      zpow_add₀ (by norm_num), zpow_natCast]
    push_cast
    ring

end Decimal

/-! ## The decimal that is written -/

theorem bits_of_neighbour {r : Ratio} {bits : Nat} {e : Int} {d : Decimal}
    (found : neighbour? r bits e = some d) : d.bits = bits := by
  simp only [neighbour?] at found
  split at found
  · next lower upper =>
    obtain rfl := Option.some.inj found
    split
    · exact eq_of_beq lower
    · exact eq_of_beq upper
  · next lower upper =>
    obtain rfl := Option.some.inj found
    exact eq_of_beq lower
  · next lower upper =>
    obtain rfl := Option.some.inj found
    exact eq_of_beq upper
  · cases found

namespace Binary

variable {b : Binary}

/-- The exact expansion. -/
def decimal (b : Binary) : Decimal :=
  if 0 ≤ b.exponent then ⟨b.significand * Nat.pow 2 b.exponent.toNat, 0⟩
  else ⟨b.significand * Nat.pow 5 (-b.exponent).toNat, b.exponent⟩

theorem value_decimal (b : Binary) : b.decimal.value = b.ratio.value := by
  rw [value_ratio]
  simp only [decimal, Decimal.value]
  split
  · next up =>
    obtain ⟨n, same⟩ := Int.eq_ofNat_of_zero_le up
    simp [same]
  · next down =>
    obtain ⟨n, same⟩ := Int.exists_eq_neg_ofNat (Int.le_of_not_le down)
    have tens : (10 : ℚ) ^ n = 5 ^ n * 2 ^ n := by
      rw [← mul_pow]
      norm_num
    rw [same, neg_neg, Int.toNat_natCast, zpow_neg, zpow_neg, zpow_natCast, zpow_natCast, tens,
      Nat.pow_eq]
    push_cast
    field_simp

/-- The powers of ten that bound the doubles. -/
theorem two_pow_le_ten_pow : 2 ^ 1024 ≤ 10 ^ 310 ∧ 2 ^ 1074 ≤ 10 ^ 330 := by
  decide +kernel

theorem Canonical.exponent_le (canonical : b.Canonical) (finite : b.bits < infinityBits) :
    b.exponent ≤ 971 := by
  have least := canonical.least
  simp only [bits, infinityBits, leastExponent, binade] at *
  rcases canonical.leading with same | leading
  · simp only [leastExponent] at same
    omega
  · simp only [binade] at leading
    omega

theorem Canonical.value_lt (canonical : b.Canonical) (finite : b.bits < infinityBits) :
    b.ratio.value < 10 ^ (310 : Int) := by
  have unit : (2 : ℚ) ^ b.exponent ≤ 2 ^ (971 : Int) :=
    zpow_le_zpow_right₀ one_le_two (canonical.exponent_le finite)
  calc b.ratio.value < 2 * binade * 2 ^ b.exponent := canonical.roundedIn.below
    _ ≤ 2 * binade * 2 ^ (971 : Int) := mul_le_mul_of_nonneg_left unit (by norm_num [binade])
    _ = 2 ^ (1024 : Int) := by
      rw [binade_eq, ← zpow_one_add₀ two_ne_zero, ← zpow_add₀ two_ne_zero]
      congr 1
    _ ≤ 10 ^ (310 : Int) := by exact_mod_cast two_pow_le_ten_pow.1

theorem Canonical.le_value (canonical : b.Canonical) (some : b.significand ≠ 0) :
    10 ^ (-330 : Int) ≤ b.ratio.value := by
  have unit : (2 : ℚ) ^ leastExponent ≤ 2 ^ b.exponent :=
    zpow_le_zpow_right₀ one_le_two canonical.least
  have one : (1 : ℚ) ≤ b.significand := Nat.one_le_cast.2 (Nat.pos_of_ne_zero some)
  have powers : (2 : ℚ) ^ (1074 : Int) ≤ 10 ^ (330 : Int) := by exact_mod_cast two_pow_le_ten_pow.2
  calc (10 : ℚ) ^ (-330 : Int) ≤ 2 ^ leastExponent := by
        rw [leastExponent, zpow_neg, zpow_neg]
        exact inv_anti₀ (zpow_pos two_pos _) powers
    _ ≤ 2 ^ b.exponent := unit
    _ ≤ b.significand * 2 ^ b.exponent := le_mul_of_one_le_left (zpow_pos two_pos _).le one
    _ = b.ratio.value := b.value_ratio.symm

theorem Canonical.bits_decimal (canonical : b.Canonical) (finite : b.bits < infinityBits) :
    b.decimal.bits = b.bits := by
  have rounded : b.decimal.ratio.nearestBits = b.ratio.nearestBits :=
    Ratio.nearestBits_congr b.decimal.den_ratio_pos b.den_ratio_pos
      (by rw [Decimal.value_ratio, value_decimal])
  rw [Decimal.bits_eq_nearestBits, rounded, canonical.nearestBits_ratio finite]
  · rw [value_decimal]
    exact canonical.value_lt finite
  · intro some
    rw [value_decimal]
    refine canonical.le_value fun none => some ?_
    rw [← Decimal.value_eq_zero_iff, value_decimal, value_ratio, none, Nat.cast_zero, zero_mul]

end Binary

/-- The decimal that is written for a finite double reads as that double. -/
theorem bits_shortest {b : Binary} (canonical : b.Canonical) (finite : b.bits < infinityBits) :
    (shortest b b.bits).bits = b.bits := by
  simp only [shortest]
  rw [Decimal.bits_congr (Decimal.value_trimZeros _)]
  generalize (List.range mostDigits).map _ = grids
  cases found : grids.findSome? (neighbour? b.ratio b.bits) with
  | none => exact canonical.bits_decimal finite
  | some d =>
    obtain ⟨e, -, near⟩ := List.exists_of_findSome?_eq_some found
    exact bits_of_neighbour near

end Polish.Number
