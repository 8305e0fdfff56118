import Mathlib.Computability.Language
import Mathlib.Tactic.IntervalCases
import Polish.Proofs.Numerals

/-! # The grammar of numerals

A numeral is an optional sign, digits with an optional point and optional digits behind it or a point
with digits behind it, and an optional exponent: a mark, an optional sign and digits.

* `Grammar.numeral` is this grammar, as a language.
* `Numeral.Spells` gives each part of a numeral its place in the text.
* `Numeral.read?_eq_some_iff`: what is read of a text are the parts that it spells.
* `read?_isSome_iff`: the texts that are read as a number are those of the grammar.
-/

namespace Polish.Number

open scoped Computability

namespace Grammar

def oneOf (s : String) : Language Char :=
  {cs | ∃ c ∈ s.toList, cs = [c]}

def digits : Language Char :=
  oneOf "0123456789" * (oneOf "0123456789")∗

def sign : Language Char :=
  1 + oneOf "+-"

def mantissa : Language Char :=
  digits * (1 + oneOf "." * (1 + digits)) + oneOf "." * digits

def exponent : Language Char :=
  oneOf "eE" * (sign * digits)

def numeral : Language Char :=
  sign * (mantissa * (1 + exponent))

end Grammar

theorem isDigit_iff_mem {c : Char} : isDigit c = true ↔ c ∈ "0123456789".toList := by
  constructor
  · intro digit
    rw [isDigit, Bool.and_eq_true, decide_eq_true_eq, decide_eq_true_eq] at digit
    have low : 48 ≤ c.toNat := digit.1
    have high : c.toNat ≤ 57 := digit.2
    have same := Char.ofNat_toNat c
    generalize c.toNat = n at low high same
    subst same
    interval_cases n <;> decide
  · exact fun member => List.all_eq_true.1 (by decide : "0123456789".toList.all isDigit = true) c member

namespace Numeral

/-! ## The parts of a text -/

inductive Signed : List Char → Bool → Prop where
  | none : Signed [] false
  | plus : Signed ['+'] false
  | minus : Signed ['-'] true

inductive Pointed : List Char → List Char → Prop where
  | none : Pointed [] []
  | some {fraction : List Char} (allDigits : ∀ c ∈ fraction, isDigit c = true) :
      Pointed ('.' :: fraction) fraction

inductive Scaled : List Char → Scale → Prop where
  | none : Scaled [] {}
  | some {mark : Char} {sign ds : List Char} {negative : Bool} (marked : mark = 'e' ∨ mark = 'E')
      (signed : Signed sign negative) (some : ds ≠ []) (allDigits : ∀ c ∈ ds, isDigit c = true) :
      Scaled (mark :: (sign ++ ds)) ⟨negative, ds⟩

/-- The text is the parts of the numeral, one behind the other. -/
inductive Spells : List Char → Numeral → Prop where
  | parts {sign whole point fraction behind : List Char} {negative : Bool} {scale : Scale}
      (signed : Signed sign negative) (allDigits : ∀ c ∈ whole, isDigit c = true)
      (pointed : Pointed point fraction) (some : ¬ (whole = [] ∧ fraction = []))
      (scaled : Scaled behind scale) :
      Spells (sign ++ (whole ++ (point ++ behind))) ⟨negative, whole, fraction, scale⟩

/-! ## What is read -/

variable {cs rest sign point fraction behind : List Char} {negative : Bool} {scale : Scale}

theorem exists_signed (cs : List Char) : ∃ sign, cs = sign ++ (readSign cs).2 ∧
    Signed sign (readSign cs).1 := by
  rw [readSign.eq_def]
  split
  · exact ⟨['-'], rfl, .minus⟩
  · exact ⟨['+'], rfl, .plus⟩
  · exact ⟨[], rfl, .none⟩

theorem Signed.readSign_eq (signed : Signed sign negative)
    (unsigned : ∀ c ∈ rest.head?, c ≠ '-' ∧ c ≠ '+') : readSign (sign ++ rest) = (negative, rest) := by
  cases signed with
  | plus => rfl
  | minus => rfl
  | none =>
    cases rest with
    | nil => rfl
    | cons c rest =>
      obtain ⟨notMinus, notPlus⟩ := unsigned c rfl
      rw [List.nil_append, readSign]
      · rintro _ ⟨⟩
        exact notMinus rfl
      · rintro _ ⟨⟩
        exact notPlus rfl

theorem exists_digits (cs : List Char) : cs = (readDigits cs).1 ++ (readDigits cs).2 ∧
    ∀ c ∈ (readDigits cs).1, isDigit c = true :=
  ⟨List.takeWhile_append_dropWhile.symm, fun c member => List.all_eq_true.1 List.all_takeWhile c member⟩

theorem exists_pointed (cs : List Char) : ∃ point, cs = point ++ (readFraction cs).2 ∧
    Pointed point (readFraction cs).1 := by
  rw [readFraction.eq_def]
  split
  · next rest =>
    obtain ⟨text, allDigits⟩ := exists_digits rest
    exact ⟨'.' :: (readDigits rest).1, by rw [List.cons_append, ← text], .some allDigits⟩
  · exact ⟨[], rfl, .none⟩

theorem Pointed.readFraction_eq (pointed : Pointed point fraction)
    (parted : ∀ c ∈ behind.head?, isDigit c = false ∧ c ≠ '.') :
    readFraction (point ++ behind) = (fraction, behind) := by
  cases pointed with
  | some allDigits =>
    exact readDigits_append allDigits fun c first => (parted c first).1
  | none =>
    cases behind with
    | nil => rfl
    | cons c behind =>
      rw [List.nil_append, readFraction]
      rintro _ ⟨⟩
      exact (parted '.' rfl).2 rfl

theorem ne_sign_of_isDigit {c : Char} (digit : isDigit c = true) : c ≠ '-' ∧ c ≠ '+' := by
  constructor <;> rintro rfl <;> cases digit

/-- An exponent is read if it is spelled. -/
theorem readScale?_eq_some_iff : readScale? behind = some scale ↔ Scaled behind scale := by
  constructor
  · intro read
    cases behind with
    | nil =>
      cases read
      exact .none
    | cons mark behind =>
      rw [readScale?] at read
      split at read
      · next marked =>
        obtain ⟨sign, text, signed⟩ := exists_signed behind
        obtain ⟨text', allDigits⟩ := exists_digits (readSign behind).2
        generalize readSign behind = first at read text text' signed allDigits
        obtain ⟨negative, rest⟩ := first
        simp only at read text' allDigits signed text
        generalize readDigits rest = counted at read text' allDigits
        obtain ⟨ds, left⟩ := counted
        split at read
        · next whole =>
          obtain ⟨some, rfl⟩ := whole
          cases read
          rw [List.append_nil] at text'
          subst text text'
          exact .some marked signed some allDigits
        · cases read
      · cases read
  · intro scaled
    cases scaled with
    | none => rfl
    | @some mark sign ds negative marked signed some allDigits =>
      have first (c : Char) (head : c ∈ ds.head?) :=
        ne_sign_of_isDigit (allDigits c (List.mem_of_mem_head? head))
      have counted : readDigits (ds ++ []) = (ds, []) :=
        readDigits_append allDigits fun c none => by cases none
      rw [List.append_nil] at counted
      simp [readScale?, marked, signed.readSign_eq first, counted, some]

theorem Scaled.head?_behind (scaled : Scaled behind scale) {c : Char} (first : c ∈ behind.head?) :
    isDigit c = false ∧ c ≠ '.' := by
  cases scaled with
  | none => cases first
  | some marked =>
    cases first
    obtain rfl | rfl := marked <;> decide

/-- What is read of a text are the parts that it spells. -/
theorem read?_eq_some_iff {n : Numeral} : read? cs = some n ↔ Spells cs n := by
  constructor
  · intro read
    obtain ⟨sign, text, signed⟩ := exists_signed cs
    obtain ⟨text', allDigits⟩ := exists_digits (readSign cs).2
    obtain ⟨point, text'', pointed⟩ := exists_pointed (readDigits (readSign cs).2).2
    rw [read?] at read
    simp only at read
    split at read
    · cases read
    · next some =>
      obtain ⟨scale, scaled, rfl⟩ := Option.map_eq_some_iff.1 read
      have spells := Spells.parts signed allDigits pointed some (readScale?_eq_some_iff.1 scaled)
      rwa [← text'', ← text', ← text] at spells
  · rintro @⟨sign, whole, point, fraction, behind, negative, scale, signed, allDigits, pointed, some, scaled⟩
    have marked (c : Char) (first : c ∈ behind.head?) := scaled.head?_behind first
    -- no digit comes behind the whole digits, only the point or the exponent
    have parted (c : Char) (first : c ∈ (point ++ behind).head?) : isDigit c = false := by
      cases pointed with
      | none => exact (marked c first).1
      | some =>
        cases first
        decide
    have unsigned (c : Char) (first : c ∈ (whole ++ (point ++ behind)).head?) : c ≠ '-' ∧ c ≠ '+' := by
      by_cases none : whole = []
      · subst none
        cases pointed with
        | none => exact absurd ⟨rfl, rfl⟩ some
        | some =>
          cases first
          decide
      · rw [List.head?_append_of_ne_nil _ none] at first
        exact ne_sign_of_isDigit (allDigits c (List.mem_of_mem_head? first))
    simp only [read?, signed.readSign_eq unsigned, readDigits_append allDigits parted,
      pointed.readFraction_eq marked, if_neg some, readScale?_eq_some_iff.2 scaled, Option.map_some]

end Numeral

/-! ## The language of the numerals -/

namespace Grammar

open Numeral

variable {cs : List Char}

theorem mem_digits_iff : cs ∈ digits ↔ cs ≠ [] ∧ ∀ c ∈ cs, isDigit c = true := by
  simp only [isDigit_iff_mem]
  constructor
  · intro member
    obtain ⟨first, ⟨c, digit, rfl⟩, rest, others, rfl⟩ := Language.mem_mul.1 member
    obtain ⟨parts, rfl, single⟩ := Language.mem_kstar.1 others
    refine ⟨List.cons_ne_nil _ _, fun d inside => ?_⟩
    obtain front | behind := List.mem_append.1 inside
    · rwa [List.mem_singleton.1 front]
    · obtain ⟨part, among, inside⟩ := List.mem_flatten.1 behind
      obtain ⟨e, digit, rfl⟩ := single part among
      rwa [List.mem_singleton.1 inside]
  · rintro ⟨some, all⟩
    obtain ⟨c, rest, rfl⟩ := List.exists_cons_of_ne_nil some
    obtain ⟨first, others⟩ := List.forall_mem_cons.1 all
    refine Language.mem_mul.2 ⟨[c], ⟨c, first, rfl⟩, rest, Language.mem_kstar.2 ?_, rfl⟩
    refine ⟨rest.map fun d => [d], ?_, fun part among => ?_⟩
    · rw [← List.flatMap_def, List.flatMap_singleton']
    obtain ⟨d, member, rfl⟩ := List.mem_map.1 among
    exact ⟨d, others d member, rfl⟩

theorem mem_optional_iff {l : Language Char} : cs ∈ 1 + l ↔ cs = [] ∨ cs ∈ l := by
  rw [Language.mem_add, Language.mem_one]

theorem mem_sign_iff : cs ∈ sign ↔ ∃ negative, Signed cs negative := by
  rw [sign, mem_optional_iff]
  constructor
  · rintro (rfl | ⟨c, member, rfl⟩)
    · exact ⟨false, .none⟩
    · obtain rfl | rfl := List.mem_pair.1 member
      · exact ⟨false, .plus⟩
      · exact ⟨true, .minus⟩
  · rintro ⟨negative, none | plus | minus⟩
    · exact .inl rfl
    · exact .inr ⟨'+', by decide, rfl⟩
    · exact .inr ⟨'-', by decide, rfl⟩

theorem mem_exponent_iff : cs ∈ 1 + exponent ↔ ∃ scale, Scaled cs scale := by
  rw [mem_optional_iff, exponent]
  constructor
  · rintro (rfl | member)
    · exact ⟨{}, .none⟩
    · obtain ⟨_, ⟨mark, marked, rfl⟩, _, behind, rfl⟩ := Language.mem_mul.1 member
      obtain ⟨first, signed, ds, digit, rfl⟩ := Language.mem_mul.1 behind
      obtain ⟨negative, signed⟩ := mem_sign_iff.1 signed
      obtain ⟨some, allDigits⟩ := mem_digits_iff.1 digit
      exact ⟨⟨negative, ds⟩, .some (List.mem_pair.1 marked) signed some allDigits⟩
  · rintro ⟨scale, none | ⟨marked, signed, some, allDigits⟩⟩
    · exact .inl rfl
    · have digit := mem_digits_iff.2 ⟨some, allDigits⟩
      have behind := Language.mem_mul.2 ⟨_, mem_sign_iff.2 ⟨_, signed⟩, _, digit, rfl⟩
      exact .inr (Language.mem_mul.2 ⟨_, ⟨_, List.mem_pair.2 marked, rfl⟩, _, behind, rfl⟩)

theorem mem_mantissa_iff : cs ∈ mantissa ↔ ∃ whole point fraction, cs = whole ++ point ∧
    (∀ c ∈ whole, isDigit c = true) ∧ Pointed point fraction ∧ ¬ (whole = [] ∧ fraction = []) := by
  have point_iff {l : Language Char} {tail : List Char} :
      tail ∈ oneOf "." * l ↔ ∃ fraction ∈ l, tail = '.' :: fraction := by
    constructor
    · intro member
      obtain ⟨_, ⟨c, dot, rfl⟩, fraction, inside, rfl⟩ := Language.mem_mul.1 member
      obtain rfl := List.mem_singleton.1 dot
      exact ⟨fraction, inside, rfl⟩
    · rintro ⟨fraction, inside, rfl⟩
      exact Language.mem_mul.2 ⟨['.'], ⟨'.', by decide, rfl⟩, fraction, inside, rfl⟩
  rw [mantissa, Language.mem_add]
  constructor
  · rintro (member | member)
    · obtain ⟨whole, digit, tail, behind, rfl⟩ := Language.mem_mul.1 member
      obtain ⟨some, allDigits⟩ := mem_digits_iff.1 digit
      obtain rfl | pointed := mem_optional_iff.1 behind
      · exact ⟨whole, [], [], rfl, allDigits, .none, fun both => some both.1⟩
      · obtain ⟨fraction, inside, rfl⟩ := point_iff.1 pointed
        refine ⟨whole, _, fraction, rfl, allDigits, .some ?_, fun both => some both.1⟩
        obtain rfl | digit := mem_optional_iff.1 inside
        · exact fun c none => (List.not_mem_nil none).elim
        · exact (mem_digits_iff.1 digit).2
    · obtain ⟨fraction, digit, rfl⟩ := point_iff.1 member
      obtain ⟨some, allDigits⟩ := mem_digits_iff.1 digit
      exact ⟨[], _, fraction, rfl, fun c none => (List.not_mem_nil none).elim, .some allDigits,
        fun both => some both.2⟩
  · rintro ⟨whole, point, fraction, rfl, allDigits, pointed, some⟩
    by_cases none : whole = []
    · subst none
      cases pointed with
      | none => exact absurd ⟨rfl, rfl⟩ some
      | some inside =>
        have digit : fraction ∈ digits := mem_digits_iff.2 ⟨fun none => some ⟨rfl, none⟩, inside⟩
        exact .inr (point_iff.2 ⟨fraction, digit, rfl⟩)
    · refine .inl (Language.mem_mul.2 ⟨whole, mem_digits_iff.2 ⟨none, allDigits⟩, point, ?_, rfl⟩)
      rw [mem_optional_iff]
      cases pointed with
      | none => exact .inl rfl
      | some inside =>
        refine .inr (point_iff.2 ⟨fraction, mem_optional_iff.2 ?_, rfl⟩)
        rw [mem_digits_iff]
        exact (em (fraction = [])).imp id fun some => ⟨some, inside⟩

theorem mem_numeral_iff : cs ∈ numeral ↔ ∃ n, Spells cs n := by
  rw [numeral]
  constructor
  · intro member
    obtain ⟨first, signed, body, behind, rfl⟩ := Language.mem_mul.1 member
    obtain ⟨front, inside, tail, scaled, rfl⟩ := Language.mem_mul.1 behind
    obtain ⟨negative, signed⟩ := mem_sign_iff.1 signed
    obtain ⟨whole, point, fraction, rfl, allDigits, pointed, some⟩ := mem_mantissa_iff.1 inside
    obtain ⟨scale, scaled⟩ := mem_exponent_iff.1 scaled
    rw [List.append_assoc]
    exact ⟨_, .parts signed allDigits pointed some scaled⟩
  · rintro ⟨_, ⟨signed, allDigits, pointed, some, scaled⟩⟩
    refine Language.mem_mul.2 ⟨_, mem_sign_iff.2 ⟨_, signed⟩, _, ?_, rfl⟩
    rw [← List.append_assoc]
    exact Language.mem_mul.2 ⟨_, mem_mantissa_iff.2 ⟨_, _, _, rfl, allDigits, pointed, some⟩, _,
      mem_exponent_iff.2 ⟨_, scaled⟩, rfl⟩

end Grammar

variable {cs : List Char}

/-- The texts that are read as a number are those of the grammar. -/
theorem read?_isSome_iff : (read? cs).isSome ↔ cs ∈ Grammar.numeral := by
  rw [read?, Option.isSome_map, Option.isSome_iff_exists, Grammar.mem_numeral_iff]
  exact exists_congr fun _ => Numeral.read?_eq_some_iff

namespace Numeral

theorem Signed.isVisible {sign : List Char} {negative : Bool} (signed : Signed sign negative) {c : Char}
    (member : c ∈ sign) : Text.isVisible c = true := by
  cases signed with
  | none => contradiction
  | plus | minus =>
    rw [List.mem_singleton.1 member]
    decide

theorem Pointed.isVisible {point fraction : List Char} (pointed : Pointed point fraction) {c : Char}
    (member : c ∈ point) : Text.isVisible c = true := by
  cases pointed with
  | none => contradiction
  | some allDigits =>
    obtain rfl | digit := List.mem_cons.1 member
    · decide
    · exact isVisible_of_isDigit (allDigits c digit)

theorem Scaled.isVisible {behind : List Char} {scale : Scale} (scaled : Scaled behind scale) {c : Char}
    (member : c ∈ behind) : Text.isVisible c = true := by
  cases scaled with
  | none => contradiction
  | some marked signed _ allDigits =>
    rw [List.mem_cons, List.mem_append] at member
    obtain rfl | sign | digit := member
    · obtain rfl | rfl := marked <;> decide
    · exact signed.isVisible sign
    · exact isVisible_of_isDigit (allDigits c digit)

/-- A numeral is a word: it is not empty, and all its characters are visible. -/
theorem Spells.solid {n : Numeral} (spells : Spells cs n) :
    cs ≠ [] ∧ ∀ c ∈ cs, Text.isVisible c = true := by
  obtain ⟨signed, allDigits, pointed, some, scaled⟩ := spells
  constructor
  · simp only [ne_eq, List.append_eq_nil_iff]
    rintro ⟨_, none, nothing, _⟩
    cases pointed with
    | none => exact some ⟨none, rfl⟩
    | some => cases nothing
  · intro c member
    rw [List.mem_append, List.mem_append, List.mem_append] at member
    obtain sign | digit | point | last := member
    · exact signed.isVisible sign
    · exact isVisible_of_isDigit (allDigits c digit)
    · exact pointed.isVisible point
    · exact scaled.isVisible last

end Numeral

end Polish.Number
