import Polish.Proofs.Callable
import Polish.Proofs.NearestDouble

/-! # Which words are numbers

A word of a source is a number if its characters are a numeral, and then its value is the double that
the number written there is rounded to.  Any other word stays a word.

* `Numeral.value` is the number that a numeral denotes, `rounds_toFloat` says what it is read as.
* `Converts` says what is asked of a conversion: to accept each numeral and to round it.  All such
  conversions agree (`converts_iff`).
* `first_of_word`: whatever is not empty and visible is a word of some source.
* `numbers_are_numerals` puts this together.
-/

namespace Polish

namespace Number

namespace Numeral

/-- The number that a numeral denotes, without its sign. -/
def value (n : Numeral) : ℚ :=
  (digitsValue n.whole + digitsValue n.fraction / 10 ^ n.fraction.length) * 10 ^ n.scale.value

theorem value_decimal (n : Numeral) : n.decimal.value = n.value := by
  have ten : (10 : ℚ) ≠ 0 := by norm_num
  rw [decimal, Decimal.value, value, digitsValue_append, zpow_sub₀ ten, zpow_natCast, Nat.pow_eq]
  push_cast
  field_simp

theorem rounds_toFloat (n : Numeral) : Rounds n.negative n.value n.toFloat := by
  rw [← value_decimal]
  exact n.decimal.rounds n.negative

end Numeral

variable {cs : List Char}

instance (cs : List Char) : Decidable (cs ∈ Grammar.numeral) :=
  decidable_of_iff _ read?_isSome_iff

theorem read?_eq_some_iff {v : Float} :
    read? cs = some v ↔ ∃ n, Numeral.Spells cs n ∧ n.toFloat = v := by
  simp only [read?, Option.map_eq_some_iff, Numeral.read?_eq_some_iff]

/-- A conversion that accepts every numeral and rounds what it denotes. -/
def Converts (convert : List Char → Option Float) : Prop :=
  ∀ cs n, Numeral.Spells cs n → ∃ v, convert cs = some v ∧ Rounds n.negative n.value v

theorem converts_read? : Converts read? :=
  fun _ n spells => ⟨_, read?_eq_some_iff.2 ⟨n, spells, rfl⟩, n.rounds_toFloat⟩

/-- There is only one way to convert the numerals. -/
theorem converts_iff {convert : List Char → Option Float} :
    Converts convert ↔ ∀ cs ∈ Grammar.numeral, convert cs = read? cs := by
  constructor
  · intro converts cs numeral
    obtain ⟨n, spells⟩ := Grammar.mem_numeral_iff.1 numeral
    obtain ⟨v, converted, rounds⟩ := converts cs n spells
    rw [converted, read?_eq_some_iff.2 ⟨n, spells, rfl⟩, rounds.unique n.rounds_toFloat]
  · intro same cs n spells
    rw [same cs (Grammar.mem_numeral_iff.2 ⟨n, spells⟩)]
    exact converts_read? cs n spells

end Number

/-! ## Words -/

/-- What a word is if the numerals are converted: it stays a word if it is no numeral, and also if the
    conversion fails. -/
def kindBy (convert : List Char → Option Float) (chars : List Char) : Token.Kind :=
  if chars ∈ Number.Grammar.numeral then (convert chars).elim .word .number else .word

variable {chars : List Char} {convert : List Char → Option Float}

theorem kindBy_of_spells (converts : Number.Converts convert) {n : Number.Numeral}
    (spells : Number.Numeral.Spells chars n) : kindBy convert chars = .number n.toFloat := by
  have numeral := Number.Grammar.mem_numeral_iff.2 ⟨n, spells⟩
  rw [kindBy, if_pos numeral, Number.converts_iff.1 converts chars numeral,
    Number.read?_eq_some_iff.2 ⟨n, spells, rfl⟩, Option.elim_some]

theorem kindBy_of_not_mem (other : chars ∉ Number.Grammar.numeral) : kindBy convert chars = .word :=
  if_neg other

theorem kind_ofWord (chars : List Char) (place : Place) :
    (Token.ofWord chars place).kind = kindBy Number.read? chars := by
  rw [kindBy]
  split
  · simp only [Token.ofWord]
    cases Number.read? chars <;> rfl
  · next other =>
    have none : Number.read? chars = none := by
      rwa [← Option.not_isSome_iff_eq_none, Number.read?_isSome_iff]
    simp only [Token.ofWord, none]

/-- The first item of a text that is a word is this word. -/
theorem first_of_word (nonempty : chars ≠ [])
    (visible : ∀ c ∈ chars, Text.isVisible c = true) (layout : Layout) {source : Source}
    (holds : source.Holds chars) :
    (TokenStream.ofSource layout source).queue.get 0 = .ok (.ofWord chars ⟨1, 0, chars.length⟩) := by
  have single : '\n' ∉ chars := fun feed => by
    cases visible _ feed
  obtain ⟨_, _, items, _⟩ := TokenStream.queue_of_source layout source
  have reads : source.reads = (linesBy '\n' chars).map TokenStream.readOf := Source.reads_of_text holds
  rw [reads, TokenStream.itemsOfReads_map_readOf, linesBy_of_not_mem single nonempty, itemsOfLines,
    itemsOfLine, pieces_of_visible nonempty visible] at items
  have first := items 0 (Nat.zero_lt_succ _)
  rw [List.map_singleton] at first
  refine (Option.some.inj first).symm.trans ?_
  rw [Piece.item, Piece.stop, Nat.zero_add]
  rfl

/-- A word is a number if and only if all of it is a numeral.
    * The words that sources have are the texts that are not empty and have only characters from `!`
      to `~`; each of them is the first token of every source that holds it.
    * A word that is a numeral is a number, and any other word stays what it is.
    * The value of a number is the double that the number written there is rounded to, with its sign.
      It is infinite from half a unit behind the largest double on, zero up to half of the least
      double, and never a NaN.
    * With any conversion that accepts all numerals and rounds them, the words would be the same, and
      none of them would be left a word because its conversion failed.
    * Words that other readers take for numbers are no numerals, and neither are points and signs
      without digits. -/
theorem numbers_are_numerals :
    (∀ chars : List Char, chars ≠ [] → (∀ c ∈ chars, '!' ≤ c ∧ c ≤ '~') →
      ∀ layout source, source.Holds chars → ∃ token,
        (TokenStream.ofSource layout source).queue.get 0 = .ok token ∧
          (∀ reached, token.kind ≠ .ending reached) ∧ token.lexeme.toList = chars) ∧
    (∀ layout source k token, (TokenStream.ofSource layout source).queue.get k = .ok token →
      (∀ reached, token.kind ≠ .ending reached) →
        let chars := token.lexeme.toList
        chars ≠ [] ∧ (∀ c ∈ chars, '!' ≤ c ∧ c ≤ '~') ∧
          ((∃ v, token.kind = .number v) ↔ chars ∈ Number.Grammar.numeral) ∧
          (token.kind = .word ↔ chars ∉ Number.Grammar.numeral) ∧
          (∀ v, token.kind = .number v → v.isNaN = false ∧ ∃ n, Number.Numeral.Spells chars n ∧
            Number.Rounds n.negative n.value v ∧
            (2 ^ (1024 : Int) - 2 ^ (970 : Int) ≤ n.value → v.isInf = true) ∧
            (n.value ≤ 2 ^ (-1075 : Int) → v.isFinite = true ∧ Number.absolute v = 0)) ∧
          ∀ convert, Number.Converts convert →
            token.kind = kindBy convert chars ∧
              (chars ∈ Number.Grammar.numeral → (convert chars).isSome = true)) ∧
    ∀ word ∈ ["inf", "nan", "-infinity", ".", "1e", "1e+", "+.e1", "1.2.3", "--1"], Callable word := by
  simp only [← Text.isVisible_iff_between]
  refine ⟨fun chars nonempty visible layout source holds => ?_,
    fun layout source k token item some => ?_, ?_⟩
  · refine ⟨_, first_of_word nonempty visible layout holds, Token.kind_ofWord_ne_ending _ _, ?_⟩
    exact String.toList_ofList
  · obtain ⟨chars, nonempty, visible, same⟩ := isWord_of_queue item some
    have lexeme : token.lexeme.toList = chars := by
      rw [same]
      exact String.toList_ofList
    have kind : token.kind = kindBy Number.read? chars := by
      rw [same, kind_ofWord]
    rw [lexeme, kind]
    refine ⟨nonempty, visible, ?_⟩
    by_cases numeral : chars ∈ Number.Grammar.numeral
    · obtain ⟨n, spells⟩ := Number.Grammar.mem_numeral_iff.1 numeral
      have number := kindBy_of_spells Number.converts_read? spells
      have rounds := n.rounds_toFloat
      rw [number]
      refine ⟨⟨fun _ => numeral, fun _ => ⟨_, rfl⟩⟩, ⟨nofun, (absurd numeral ·)⟩, ?_, ?_⟩
      · intro v value
        cases value
        exact ⟨rounds.number, n, spells, rounds, rounds.isInf, rounds.absolute_eq_zero⟩
      · intro convert converts
        refine ⟨(kindBy_of_spells converts spells).symm, fun _ => ?_⟩
        rwa [Number.converts_iff.1 converts chars numeral, Number.read?_isSome_iff]
    · rw [kindBy_of_not_mem numeral]
      refine ⟨⟨nofun, (absurd · numeral)⟩, ⟨fun _ => numeral, fun _ => rfl⟩, nofun, ?_⟩
      exact fun convert _ => ⟨(kindBy_of_not_mem numeral).symm, (absurd · numeral)⟩
  · decide +kernel

/-- A number too small for a double is read as the zero of its sign. -/
theorem negative_zero_of_underflow :
    ∃ token v,
      (TokenStream.ofSource .linewise (.ofString "-1e-330")).queue.get 0 = .ok token ∧
        token.kind = .number v ∧ v.isFinite = true ∧ Number.isNegative v = true ∧
        Number.absolute v = 0 := by
  have holds : (Source.ofString "-1e-330").Holds "-1e-330".toList := Source.holds_ofString _
  have visible := List.all_eq_true.1
    (by decide : "-1e-330".toList.all (fun c => '!' ≤ c ∧ c ≤ '~') = true)
  have numeral : "-1e-330".toList ∈ Number.Grammar.numeral := by decide +kernel
  have parts : Number.Numeral.read? "-1e-330".toList =
      some ⟨true, "1".toList, [], ⟨true, "330".toList⟩⟩ := by decide +kernel
  obtain ⟨words, tokens, _⟩ := numbers_are_numerals
  obtain ⟨token, item, some, lexeme⟩ := words _ (by decide)
    (fun c member => of_decide_eq_true (visible c member)) .linewise _ holds
  obtain ⟨_, _, number_iff, _, value, _⟩ := tokens _ _ _ _ item some
  obtain ⟨v, number⟩ := number_iff.2 (lexeme ▸ numeral)
  obtain ⟨_, n, spells, rounds, _, underflow⟩ := value v number
  rw [lexeme, ← Number.Numeral.read?_eq_some_iff, parts] at spells
  obtain rfl := Option.some.inj spells
  obtain ⟨finite, zero⟩ := underflow (by
    have powers : (2 : ℚ) ^ 1075 ≤ 10 ^ 330 := by
      exact_mod_cast Number.Decimal.two_pow_le_ten_pow_of_underflow
    have one : Number.digitsValue "1".toList = 1 := by decide
    have scale : Number.Scale.value ⟨true, "330".toList⟩ = -330 := by decide
    have none : Number.digitsValue [] = 0 := rfl
    rw [Number.Numeral.value, one, scale, none, zpow_neg, zpow_neg, Nat.cast_zero, zero_div, add_zero,
      Nat.cast_one, one_mul]
    exact inv_anti₀ (by positivity) powers)
  exact ⟨token, v, item, number, finite, rounds.sign, zero⟩

end Polish
