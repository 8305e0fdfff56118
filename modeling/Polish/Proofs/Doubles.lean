import Mathlib.Tactic.Ring
import Polish.Number.Binary

/-! # Doubles and their bits

A double is what its bits say, and its bits are its sign and its magnitude.  So it can be taken apart
and put together again.

* `packComponents_unpack`: the bits of a double are those of its sign, its exponent and its mantissa.
* `unpackedBits`: what bits unpack to.
* `pack_unpack`: to unpack bits and to pack the result gives the bits back, unless they are those of a
  NaN that is not the canonical one, which are no valid bits.
* `ofMagnitude_magnitudeBits`: a double is given by its sign and by the bits of its magnitude, and
  `magnitudeBits_ofMagnitude`, `isNegative_ofMagnitude` give them back.
* `unpacks`: what a double is, by the fields of its bits.  `isFinite_iff`, `isInf_iff` and `isNaN_iff`
  tell the kinds of doubles apart.
* `exists_binary_of_isFinite`: the parts of a finite double, and how they make up its bits.
-/

namespace Polish.Number

open Float.Model (UnpackedFloat Format)
open Float.Model.UnpackedFloat

abbrev PackedDouble := BitVec Format.binary64.numBits

variable {b : PackedDouble} {v : Float}

/-! ## Bits and their fields -/

theorem toBitVec_ofBitVec (sign : BitVec 1) : (Sign.ofBitVec sign).toBitVec = sign := by
  revert sign
  decide

theorem toNat_packComponents (sign : Sign) (exponent : BitVec 11) (mantissa : BitVec 52) :
    (packComponents Format.binary64 sign exponent mantissa).toNat =
      sign.toBitVec.toNat * 2 ^ 63 + exponent.toNat * 2 ^ 52 + mantissa.toNat := by
  simp only [packComponents, BitVec.toNat_append]
  rw [← Nat.shiftLeft_add_eq_or_of_lt mantissa.isLt, ← Nat.shiftLeft_add_eq_or_of_lt exponent.isLt,
    Nat.shiftLeft_eq, Nat.shiftLeft_eq]
  ring

theorem toNat_unpackMantissa (b : PackedDouble) : (unpackMantissa b).toNat = b.toNat % 2 ^ 52 := by
  simp [unpackMantissa, BitVec.extractLsb]

theorem toNat_unpackExponent (b : PackedDouble) :
    (unpackExponent b).toNat = b.toNat / 2 ^ 52 % 2 ^ 11 := by
  simp [unpackExponent, BitVec.extractLsb, Nat.shiftRight_eq_div_pow]

theorem toNat_unpackSign (b : PackedDouble) : (unpackSign b).toNat = b.toNat / 2 ^ 63 := by
  have bound : b.toNat < 2 ^ 64 := b.isLt
  unfold unpackSign
  simp only [BitVec.extractLsb, BitVec.toNat_cast, BitVec.extractLsb'_toNat,
    Nat.shiftRight_eq_div_pow]
  exact Nat.mod_eq_of_lt (Nat.div_lt_of_lt_mul bound)

theorem packComponents_unpack (b : PackedDouble) :
    packComponents Format.binary64 (Sign.ofBitVec (unpackSign b)) (unpackExponent b)
      (unpackMantissa b) = b := by
  apply BitVec.eq_of_toNat_eq
  rw [toNat_packComponents, toBitVec_ofBitVec, toNat_unpackSign, toNat_unpackExponent,
    toNat_unpackMantissa]
  omega

/-! ## Packing -/

theorem pack_subnormal (sign : Sign) {mantissa : BitVec 52} (positive : 0 < mantissa.toNat) :
    UnpackedFloat.pack Format.binary64 (.finite sign mantissa.toNat (-1074) positive) =
      packComponents Format.binary64 sign 0#11 mantissa := by
  have few : mantissa.toNat.log2 < 52 := (Nat.log2_lt (Nat.ne_of_gt positive)).2 mantissa.isLt
  have bits : Format.binary64.mantissaBits = 53 := rfl
  unfold UnpackedFloat.pack
  dsimp only
  simp only [bits]
  rw [if_neg (by decide), if_neg (by omega), BitVec.ofNat_toNat, BitVec.setWidth_eq]

theorem toNat_one_append (mantissa : BitVec 52) :
    (1#1 ++ mantissa).toNat = 2 ^ 52 + mantissa.toNat := by
  rw [BitVec.toNat_append, ← Nat.shiftLeft_add_eq_or_of_lt mantissa.isLt]
  rfl

theorem pack_normal (sign : Sign) {exponent : BitVec 11} (mantissa : BitVec 52)
    (positive : 0 < (1#1 ++ mantissa).toNat) (finite : exponent.toNat < 2047) :
    UnpackedFloat.pack Format.binary64
        (.finite sign (1#1 ++ mantissa).toNat (exponent.toNat - (1023 + 52 : Int)) positive) =
      packComponents Format.binary64 sign exponent mantissa := by
  have size := toNat_one_append mantissa
  have bound := mantissa.isLt
  have digits : (1#1 ++ mantissa).toNat.log2 = 52 :=
    (Nat.log2_eq_iff (Nat.ne_of_gt positive)).2 ⟨by omega, by omega⟩
  have bits : Format.binary64.mantissaBits = 53 := rfl
  have biased : ((exponent.toNat : Int) - (1023 + 52) + (Format.binary64.exponentBias : Int) +
      ((52 : Nat) : Int)).toNat = exponent.toNat := by
    rw [show (Format.binary64.exponentBias : Int) = 1023 from rfl]
    omega
  have rest : BitVec.ofNat 52 (1#1 ++ mantissa).toNat = mantissa := by
    apply BitVec.eq_of_toNat_eq
    rw [BitVec.toNat_ofNat, size, Nat.add_mod_left, Nat.mod_eq_of_lt bound]
  unfold UnpackedFloat.pack
  dsimp only
  simp only [bits, digits, rest, biased]
  rw [if_neg (by omega), if_pos trivial, BitVec.ofNat_toNat, BitVec.setWidth_eq]

/-! ## Unpacking -/

/-- What bits unpack to, by their fields. -/
inductive UnpackedBits (b : PackedDouble) : UnpackedFloat → Prop where
  | infinity (special : unpackExponent b = -1#_) (none : unpackMantissa b = 0#_) :
      UnpackedBits b (.infinity (Sign.ofBitVec (unpackSign b)))
  | notANumber (special : unpackExponent b = -1#_) (some : unpackMantissa b ≠ 0#_) :
      UnpackedBits b .notANumber
  | zero (least : unpackExponent b = 0#_) (none : unpackMantissa b = 0#_) :
      UnpackedBits b (.zero (Sign.ofBitVec (unpackSign b)))
  | subnormal (least : unpackExponent b = 0#_) {positive : 0 < (unpackMantissa b).toNat} :
      UnpackedBits b (.finite (Sign.ofBitVec (unpackSign b)) (unpackMantissa b).toNat (-1074) positive)
  | normal (finite : (unpackExponent b).toNat < 2047) (counted : (unpackExponent b).toNat ≠ 0)
      {positive : 0 < (1#1 ++ unpackMantissa b).toNat} :
      UnpackedBits b (.finite (Sign.ofBitVec (unpackSign b)) (1#1 ++ unpackMantissa b).toNat
        ((unpackExponent b).toNat - (1023 + 52 : Int)) positive)

theorem unpackedBits (b : PackedDouble) :
    UnpackedBits b (UnpackedFloat.unpack Format.binary64 b) := by
  unfold UnpackedFloat.unpack
  dsimp only
  by_cases special : unpackExponent b = -1#_
  · rw [if_pos special]
    by_cases none : unpackMantissa b = 0#_
    · rw [if_pos none]
      exact .infinity special none
    · rw [if_neg none]
      exact .notANumber special none
  · rw [if_neg special]
    by_cases least : unpackExponent b = 0#_
    · rw [if_pos least]
      by_cases none : unpackMantissa b = 0#_
      · rw [dif_pos none]
        exact .zero least none
      · rw [dif_neg none, least]
        exact .subnormal least
    · have bound : (unpackExponent b).toNat < 2048 := (unpackExponent b).isLt
      have small : (unpackExponent b).toNat ≠ 2047 := fun same => special (BitVec.eq_of_toNat_eq same)
      rw [if_neg least]
      exact .normal (by omega) fun same => least (BitVec.eq_of_toNat_eq same)

/-- Valid bits are packed as they were before they were unpacked. -/
theorem pack_unpack (valid : Format.binary64.Valid b) :
    UnpackedFloat.pack Format.binary64 (UnpackedFloat.unpack Format.binary64 b) = b := by
  have whole := packComponents_unpack b
  have unpacked := unpackedBits b
  generalize UnpackedFloat.unpack Format.binary64 b = u at unpacked
  cases unpacked with
  | infinity special none =>
    rw [special, none] at whole
    exact whole
  | notANumber special some => exact (valid.eq_packedNaN special some).symm
  | zero least none =>
    rw [least, none] at whole
    exact whole
  | subnormal least =>
    rw [least] at whole
    exact (pack_subnormal _ _).trans whole
  | normal finite => exact (pack_normal _ _ _ finite).trans whole

/-! ## Sign and magnitude -/

theorem toBits_injective : Function.Injective Float.toBits := by
  rintro ⟨⟨_, _⟩⟩ ⟨⟨_, _⟩⟩ same
  obtain rfl : _ = _ := same
  rfl

theorem ofBits_toBits (v : Float) : Float.ofBits v.toBits = v :=
  toBits_injective (congrArg UInt64.ofBitVec (pack_unpack v.toModel.valid))

theorem ofMagnitude_magnitudeBits (v : Float) :
    ofMagnitude (isNegative v) (magnitudeBits v) = v := by
  have bound : v.toBits.toNat < 2 * signBit := v.toBits.toNat_lt
  have whole : (if isNegative v then signBit + magnitudeBits v else magnitudeBits v) =
      v.toBits.toNat := by
    simp only [isNegative, magnitudeBits, decide_eq_true_eq]
    split
    · next high =>
      rw [Nat.mod_eq_sub_mod high, Nat.mod_eq_of_lt (by omega)]
      omega
    · next low => exact Nat.mod_eq_of_lt (Nat.lt_of_not_le low)
  rw [ofMagnitude, whole, UInt64.ofNat_toNat, ofBits_toBits]

theorem valid_of_le (le : b.toNat % signBit ≤ infinityBits) : Format.binary64.Valid b := by
  refine ⟨fun special some => absurd (BitVec.eq_of_toNat_eq ?_) some⟩
  have field := toNat_unpackExponent b
  rw [special] at field
  have field : 2047 = b.toNat / 2 ^ 52 % 2 ^ 11 := field
  have none : b.toNat % 2 ^ 52 = 0 := by
    rw [signBit, infinityBits, binade] at le
    omega
  rw [toNat_unpackMantissa, none]
  rfl

theorem toNat_toBits_ofMagnitude {n : Nat} (negative : Bool) (le : n ≤ infinityBits) :
    (ofMagnitude negative n).toBits.toNat = if negative then signBit + n else n := by
  have less : n < signBit := lt_of_le_of_lt le (by decide)
  have bound : (if negative then signBit + n else n) < 2 ^ 64 := by
    rw [signBit, binade] at *
    split <;> omega
  have bits : (UInt64.ofNat (if negative then signBit + n else n)).toBitVec.toNat =
      if negative then signBit + n else n := UInt64.toNat_ofNat_of_lt' bound
  have valid : Format.binary64.Valid (UInt64.ofNat (if negative then signBit + n else n)).toBitVec := by
    refine valid_of_le ?_
    rw [bits]
    split
    · rwa [Nat.add_mod_left, Nat.mod_eq_of_lt less]
    · rwa [Nat.mod_eq_of_lt less]
  have packed : (ofMagnitude negative n).toBits.toBitVec = _ := pack_unpack valid
  rw [UInt64.toNat, packed, bits]

theorem magnitudeBits_ofMagnitude {n : Nat} (negative : Bool) (le : n ≤ infinityBits) :
    magnitudeBits (ofMagnitude negative n) = n := by
  have less : n < signBit := lt_of_le_of_lt le (by decide)
  rw [magnitudeBits, toNat_toBits_ofMagnitude negative le]
  split
  · rw [Nat.add_mod_left, Nat.mod_eq_of_lt less]
  · rw [Nat.mod_eq_of_lt less]

theorem isNegative_ofMagnitude {n : Nat} (negative : Bool) (le : n ≤ infinityBits) :
    isNegative (ofMagnitude negative n) = negative := by
  have less : n < signBit := lt_of_le_of_lt le (by decide)
  rw [isNegative, toNat_toBits_ofMagnitude negative le]
  cases negative <;> simp [less]

/-! ## What a double unpacks to -/

def packed (v : Float) : PackedDouble :=
  v.toBits.toBitVec

theorem magnitudeBits_div_binade (v : Float) :
    magnitudeBits v / binade = (unpackExponent (packed v)).toNat := by
  have same : (packed v).toNat = v.toBits.toNat := rfl
  rw [toNat_unpackExponent, same, magnitudeBits, signBit, binade]
  omega

theorem magnitudeBits_mod_binade (v : Float) :
    magnitudeBits v % binade = (unpackMantissa (packed v)).toNat := by
  have same : (packed v).toNat = v.toBits.toNat := rfl
  rw [toNat_unpackMantissa, same, magnitudeBits, signBit, binade]
  omega

/-- What a double with an exponent field and a fraction unpacks to. -/
inductive Unpacks : Nat → Nat → UnpackedFloat → Prop where
  | infinity {sign : Sign} : Unpacks 2047 0 (.infinity sign)
  | notANumber {fraction : Nat} (some : fraction ≠ 0) : Unpacks 2047 fraction .notANumber
  | zero {sign : Sign} : Unpacks 0 0 (.zero sign)
  | subnormal {sign : Sign} {fraction : Nat} {positive : 0 < fraction} :
      Unpacks 0 fraction (.finite sign fraction leastExponent positive)
  | normal {sign : Sign} {field fraction : Nat} {positive : 0 < binade + fraction}
      (finite : field + 1 < 2047) : Unpacks (field + 1) fraction
        (.finite sign (binade + fraction) (leastExponent + field) positive)

theorem unpacks (v : Float) :
    Unpacks (magnitudeBits v / binade) (magnitudeBits v % binade) v.toModel.unpack := by
  have unpacked : UnpackedBits (packed v) v.toModel.unpack := unpackedBits (packed v)
  rw [magnitudeBits_div_binade, magnitudeBits_mod_binade]
  generalize v.toModel.unpack = u at unpacked
  generalize packed v = b at unpacked
  cases unpacked with
  | infinity special none =>
    rw [special, none]
    exact .infinity
  | notANumber special some =>
    rw [special]
    exact .notANumber fun none => some (BitVec.eq_of_toNat_eq none)
  | zero least none =>
    rw [least, none]
    exact .zero
  | subnormal least =>
    rw [least]
    exact .subnormal
  | @normal finite counted positive =>
    obtain ⟨k, field⟩ := Nat.exists_eq_succ_of_ne_zero counted
    have exponent : ((k + 1 : Nat) : Int) - (1023 + 52) = leastExponent + k := by
      rw [leastExponent]
      omega
    rw [field, Nat.succ_eq_add_one] at finite ⊢
    rw [exponent]
    revert positive
    rw [toNat_one_append]
    intro positive
    exact .normal finite

theorem Unpacks.isFinite_iff {field fraction : Nat} {u : UnpackedFloat}
    (unpacks : Unpacks field fraction u) : u.isFinite = true ↔ field < 2047 := by
  unfold UnpackedFloat.isFinite
  cases unpacks <;> simp_all

theorem Unpacks.isNaN_iff {field fraction : Nat} {u : UnpackedFloat}
    (unpacks : Unpacks field fraction u) : u.isNaN = true ↔ field = 2047 ∧ fraction ≠ 0 := by
  unfold UnpackedFloat.isNaN
  cases unpacks <;> simp_all
  omega

theorem Unpacks.isInf_iff {field fraction : Nat} {u : UnpackedFloat}
    (unpacks : Unpacks field fraction u) : u.isInf = true ↔ field = 2047 ∧ fraction = 0 := by
  unfold UnpackedFloat.isInf
  cases unpacks <;> simp_all
  omega

theorem isFinite_iff : v.isFinite = true ↔ magnitudeBits v < infinityBits := by
  have same : v.isFinite = v.toModel.unpack.isFinite := rfl
  rw [same, (unpacks v).isFinite_iff, Nat.div_lt_iff_lt_mul (by decide), infinityBits]

theorem isNaN_iff : v.isNaN = true ↔ infinityBits < magnitudeBits v := by
  have same : v.isNaN = v.toModel.unpack.isNaN := rfl
  have bound : magnitudeBits v < signBit := Nat.mod_lt _ (by decide)
  rw [same, (unpacks v).isNaN_iff, infinityBits]
  rw [signBit] at bound
  simp only [binade] at *
  omega

theorem isInf_iff : v.isInf = true ↔ magnitudeBits v = infinityBits := by
  have same : v.isInf = v.toModel.unpack.isInf := rfl
  rw [same, (unpacks v).isInf_iff, infinityBits]
  simp only [binade]
  omega

theorem magnitudeBits_eq_infinityBits (number : v.isNaN = false) (infinite : v.isFinite ≠ true) :
    magnitudeBits v = infinityBits := by
  have upper : ¬ infinityBits < magnitudeBits v := isNaN_iff.not.1 (Bool.not_eq_true _ ▸ number)
  have lower := isFinite_iff.not.1 infinite
  omega

/-! ## The parts of a finite double -/

/-- The significand fits below two binades and fills the first one, unless the unit is the least
    there is. -/
structure Binary.Canonical (b : Binary) : Prop where
  bounded : b.significand < 2 * binade
  least : leastExponent ≤ b.exponent
  leading : b.exponent = leastExponent ∨ binade ≤ b.significand

/-- The bits of the magnitude: the binades count the units up to that of the double. -/
def Binary.bits (b : Binary) : Nat :=
  (b.exponent - leastExponent).toNat * binade + b.significand

theorem isNaN_of_isFinite (finite : v.isFinite = true) : isNaN v = false := by
  have bound := isFinite_iff.1 finite
  simp only [isNaN, decide_eq_false_iff_not]
  omega

/-- The parts of a finite double. -/
theorem exists_binary_of_isFinite (finite : v.isFinite = true) :
    ∃ b, Binary.ofFloat? v = some b ∧ b.negative = isNegative v ∧ b.Canonical ∧
      b.bits = magnitudeBits v := by
  have bound := isFinite_iff.1 finite
  have pieces := Nat.div_add_mod (magnitudeBits v) binade
  have rest : magnitudeBits v % binade < binade := Nat.mod_lt _ (by decide)
  have field : magnitudeBits v / binade < 2047 := Nat.div_lt_of_lt_mul bound
  simp only [Binary.ofFloat?]
  rw [if_neg (by omega)]
  by_cases least : magnitudeBits v / binade = 0
  · rw [if_pos least]
    rw [least, Nat.mul_zero, Nat.zero_add] at pieces
    refine ⟨_, rfl, rfl, ⟨?_, le_refl _, .inl rfl⟩, ?_⟩
    · exact lt_trans rest (by decide)
    · simpa only [Binary.bits, sub_self, Int.toNat_zero, Nat.zero_mul, Nat.zero_add]
  · rw [if_neg least]
    refine ⟨_, rfl, rfl, ⟨?_, ?_, .inr (Nat.le_add_right _ _)⟩, ?_⟩
    · simp only
      omega
    · simp only
      omega
    · simp only [Binary.bits, add_sub_cancel_left, Int.toNat_natCast]
      have count : (magnitudeBits v / binade - 1) * binade + binade =
          binade * (magnitudeBits v / binade) := by
        rw [← Nat.succ_mul, Nat.succ_eq_add_one, Nat.sub_add_cancel (Nat.pos_of_ne_zero least),
          Nat.mul_comm]
      omega

end Polish.Number
