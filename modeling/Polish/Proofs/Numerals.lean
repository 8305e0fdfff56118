import Polish.Number.Numeral
import Polish.Proofs.Decimals
import Polish.Text.Blank

/-! # Numbers are read back as they were written

A finite double is written as a plain numeral: a sign where it is negative, digits, and behind them a
point and digits where there are any.  What is read is the double that was written.

* `read?_plain`: a plain numeral is read as its sign and its digits.
* `Decimal.exists_writtenAs`: a decimal is written as a plain numeral of its value.
* `read?_write`: a finite double is read back as it was written.
-/

namespace Polish.Number

/-- Digits, and behind them a point and digits where there are any. -/
def plain (whole fraction : List Char) : List Char :=
  whole ++ if fraction = [] then [] else '.' :: fraction

def signOf (negative : Bool) : List Char :=
  if negative then ['-'] else []

theorem isDigit_of_mem_digits {n : Nat} {c : Char} (member : c ∈ digits n) : isDigit c = true :=
  Nat.isDigit_of_mem_toDigits (by decide) le_rfl member

/-! ## Reading a plain numeral -/

namespace Numeral

variable {whole fraction : List Char}

theorem readDigits_append {rest : List Char} (allDigits : ∀ c ∈ whole, isDigit c = true)
    (ends : ∀ c ∈ rest.head?, isDigit c = false) : readDigits (whole ++ rest) = (whole, rest) := by
  rw [readDigits, List.takeWhile_append_of_pos allDigits, List.dropWhile_append_of_pos allDigits]
  cases rest with
  | nil => simp
  | cons c rest => simp [ends c rfl]

theorem readSign_signOf (negative : Bool) {cs : List Char} (digit : ∀ c ∈ cs.head?, isDigit c = true) :
    readSign (signOf negative ++ cs) = (negative, cs) := by
  cases negative with
  | true => rfl
  | false =>
    cases cs with
    | nil => rfl
    | cons c rest =>
      have some := digit c rfl
      simp only [signOf, Bool.false_eq_true, if_false, List.nil_append]
      rw [readSign]
      · rintro _ ⟨⟩
        exact absurd some (by decide)
      · rintro _ ⟨⟩
        exact absurd some (by decide)

/-- A plain numeral is read as its sign and its digits. -/
theorem read?_plain (negative : Bool) (leading : whole ≠ [])
    (allDigits : ∀ c ∈ whole ++ fraction, isDigit c = true) :
    read? (signOf negative ++ plain whole fraction) = some ⟨negative, whole, fraction, {}⟩ := by
  obtain ⟨before, behind⟩ := List.forall_mem_append.1 allDigits
  have signed : readSign (signOf negative ++ plain whole fraction) =
      (negative, plain whole fraction) := by
    refine readSign_signOf negative fun c first => before c (List.mem_of_mem_head? ?_)
    rwa [plain, List.head?_append_of_ne_nil _ leading] at first
  have counted : readDigits (plain whole fraction) =
      (whole, if fraction = [] then [] else '.' :: fraction) := by
    refine readDigits_append before fun c first => ?_
    split at first
    · cases first
    · cases first
      rfl
  have pointed : readFraction (if fraction = [] then [] else '.' :: fraction) = (fraction, []) := by
    split
    · next none =>
      rw [none]
      rfl
    · have last : readDigits (fraction ++ []) = (fraction, []) :=
        readDigits_append behind fun c first => by cases first
      rwa [List.append_nil] at last
  simp [read?, signed, counted, pointed, leading, readScale?]

end Numeral

/-! ## Writing a decimal -/

namespace Decimal

variable {d : Decimal} {whole fraction : List Char}

/-- The digits before the point and those behind it that `d` is written with. -/
structure WrittenAs (d : Decimal) (whole fraction : List Char) : Prop where
  form : d.positional = plain whole fraction
  leading : whole ≠ []
  allDigits : ∀ c ∈ whole ++ fraction, isDigit c = true
  value : (Decimal.mk (digitsValue (whole ++ fraction)) (-(fraction.length : Int))).value = d.value

theorem isDigit_of_mem_zeros {n : Nat} {c : Char} (member : c ∈ List.replicate n '0') :
    isDigit c = true := by
  rw [List.eq_of_mem_replicate member]
  rfl

theorem writtenAs_whole (up : 0 ≤ d.exponent) :
    d.WrittenAs (digits d.coefficient ++ List.replicate d.exponent.toNat '0') [] where
  form := by simp [positional, plain, up]
  leading := List.append_ne_nil_of_left_ne_nil (digits_ne_nil _) _
  allDigits c member := by
    rw [List.append_nil, List.mem_append] at member
    exact member.elim isDigit_of_mem_digits isDigit_of_mem_zeros
  value := by
    obtain ⟨n, same⟩ := Int.eq_ofNat_of_zero_le up
    rw [List.append_nil, digitsValue_append_zeros, digitsValue_digits, Nat.pow_eq, value, value, same]
    push_cast
    simp [mul_comm]

theorem writtenAs_inside {before behind : List Char} (whole : digits d.coefficient = before ++ behind)
    (leading : before ≠ []) (some : behind ≠ []) (places : d.exponent = -(behind.length : Int)) :
    d.WrittenAs before behind where
  form := by
    have count : (-d.exponent).toNat = behind.length := by omega
    have positive := List.length_pos_iff.2 leading
    have positive' := List.length_pos_iff.2 some
    simp only [positional, plain, whole, count, List.length_append, Nat.add_sub_cancel,
      List.take_left, List.drop_left, if_neg some]
    rw [if_neg (by omega), if_pos (by omega)]
  leading := leading
  allDigits c member := isDigit_of_mem_digits (whole ▸ member)
  value := by rw [← whole, digitsValue_digits, ← places]

theorem writtenAs_behind {n : Nat} (places : d.exponent = -((n + (digits d.coefficient).length : Nat) : Int)) :
    d.WrittenAs ['0'] (List.replicate n '0' ++ digits d.coefficient) where
  form := by
    have positive := List.length_pos_iff.2 (digits_ne_nil d.coefficient)
    have count : (-d.exponent).toNat - (digits d.coefficient).length = n := by omega
    simp only [positional, plain, count]
    rw [if_neg (by omega), if_neg (by omega), if_neg (by simp [digits_ne_nil])]
    rfl
  leading := List.cons_ne_nil _ _
  allDigits c member := by
    rw [List.singleton_append, List.mem_cons, List.mem_append] at member
    rcases member with rfl | zero | digit
    · rfl
    · exact isDigit_of_mem_zeros zero
    · exact isDigit_of_mem_digits digit
  value := by
    have zeros := digitsValue_zeros_append (n + 1) (digits d.coefficient)
    rw [List.replicate_succ, List.cons_append] at zeros
    rw [List.singleton_append, zeros, digitsValue_digits, List.length_append, List.length_replicate,
      ← places]

theorem exists_writtenAs (d : Decimal) : ∃ whole fraction, d.WrittenAs whole fraction := by
  by_cases up : 0 ≤ d.exponent
  · exact ⟨_, _, writtenAs_whole up⟩
  have length : (digits d.coefficient).length ≠ 0 := mt List.length_eq_zero_iff.1 (digits_ne_nil _)
  by_cases inside : (-d.exponent).toNat < (digits d.coefficient).length
  · have behind : ((digits d.coefficient).drop
        ((digits d.coefficient).length - (-d.exponent).toNat)).length = (-d.exponent).toNat := by
      rw [List.length_drop]
      omega
    refine ⟨_, _, writtenAs_inside (List.take_append_drop
      ((digits d.coefficient).length - (-d.exponent).toNat) _).symm ?_ ?_ ?_⟩
    · rw [Ne, List.take_eq_nil_iff, not_or]
      exact ⟨by omega, digits_ne_nil _⟩
    · rw [← List.length_pos_iff, behind]
      omega
    · rw [behind]
      omega
  · obtain ⟨n, same⟩ := Nat.exists_eq_add_of_le' (Nat.le_of_not_lt inside)
    exact ⟨_, _, writtenAs_behind (n := n) (by omega)⟩

/-- A decimal is read as the double of its value. -/
theorem read?_positional (negative : Bool) (d : Decimal) :
    Number.read? (signOf negative ++ d.positional) = some (ofMagnitude negative d.bits) := by
  obtain ⟨whole, fraction, written⟩ := d.exists_writtenAs
  have same : (Numeral.mk negative whole fraction {}).decimal.bits = d.bits := by
    refine bits_congr ?_
    rw [← written.value, Numeral.decimal]
    simp [Scale.value, digitsValue]
  rw [Number.read?, written.form, Numeral.read?_plain negative written.leading written.allDigits,
    Option.map_some, Numeral.toFloat, same]

end Decimal

/-! ## What is written for a finite double -/

variable {v : Float}

theorem write_of_isFinite (finite : v.isFinite = true) :
    ∃ d : Decimal, d.bits = magnitudeBits v ∧ write v = signOf (isNegative v) ++ d.positional := by
  obtain ⟨b, apart, -, canonical, bits⟩ := exists_binary_of_isFinite finite
  have bound := isFinite_iff.1 finite
  rw [← bits] at bound
  refine ⟨shortest b (magnitudeBits v), ?_, ?_⟩
  · rw [← bits, bits_shortest canonical bound]
  · simp only [write, isNaN_of_isFinite finite, apart, signOf, Bool.false_eq_true, if_false]

/-- What is written is a plain numeral. -/
theorem exists_plain_of_isFinite (finite : v.isFinite = true) :
    ∃ whole fraction, write v = signOf (isNegative v) ++ plain whole fraction ∧ whole ≠ [] ∧
      ∀ c ∈ whole ++ fraction, isDigit c = true := by
  obtain ⟨d, -, form⟩ := write_of_isFinite finite
  obtain ⟨whole, fraction, written⟩ := d.exists_writtenAs
  exact ⟨whole, fraction, by rw [form, written.form], written.leading, written.allDigits⟩

theorem isVisible_of_isDigit {c : Char} (digit : isDigit c = true) : Text.isVisible c = true := by
  rw [isDigit, Bool.and_eq_true, decide_eq_true_eq, decide_eq_true_eq] at digit
  rw [Text.isVisible_iff]
  have low : 48 ≤ c.toNat := digit.1
  have high : c.toNat ≤ 57 := digit.2
  omega

theorem isVisible_of_mem_write (finite : v.isFinite = true) {c : Char} (member : c ∈ write v) :
    Text.isVisible c = true := by
  obtain ⟨whole, fraction, form, -, allDigits⟩ := exists_plain_of_isFinite finite
  obtain ⟨before, behind⟩ := List.forall_mem_append.1 allDigits
  rw [form, plain, List.mem_append, List.mem_append] at member
  rcases member with sign | digit | fraction_
  · rw [signOf] at sign
    split at sign
    · rw [List.mem_singleton.1 sign]
      decide
    · contradiction
  · exact isVisible_of_isDigit (before c digit)
  · split at fraction_
    · contradiction
    · rcases List.mem_cons.1 fraction_ with rfl | digit
      · decide
      · exact isVisible_of_isDigit (behind c digit)

theorem write_ne_nil (finite : v.isFinite = true) : write v ≠ [] := by
  obtain ⟨whole, fraction, form, leading, -⟩ := exists_plain_of_isFinite finite
  rw [form, plain]
  simp [leading]

/-- A finite double is read back as it was written. -/
theorem read?_write (finite : v.isFinite = true) : Number.read? (write v) = some v := by
  obtain ⟨d, bits, form⟩ := write_of_isFinite finite
  rw [form, d.read?_positional, bits, ofMagnitude_magnitudeBits]

end Polish.Number
