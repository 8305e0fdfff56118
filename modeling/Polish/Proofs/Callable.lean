import Polish.Proofs.Agreement
import Polish.Proofs.NumeralGrammar
import Polish.Proofs.Reports
import Polish.Proofs.RoundTrip

/-! # Which operators can be called

An operator is called by its symbol, and so the symbol has to be a word that is no numeral.  An operator
with such a symbol is called by writing the symbol and then its operands; any other operator is never
found, whatever the source is.

* `Callable` says which symbols can be called.
* `spells_of_call` reads the symbol and the numerals behind it as one expression, and
  `values_of_call` evaluates it.
* `callable_of_queue`: each word that a source gives is callable.
* `values_of_insert_uncallable`: so an operator with another symbol makes no difference.
* `called_exactly_by_words` puts this together.
-/

namespace Polish

structure Callable (symbol : String) : Prop where
  nonempty : symbol.toList ≠ []
  visible : ∀ c ∈ symbol.toList, '!' ≤ c ∧ c ≤ '~'
  noNumeral : symbol.toList ∉ Number.Grammar.numeral

theorem callable_iff {symbol : String} : Callable symbol ↔ symbol.toList ≠ [] ∧
    (∀ c ∈ symbol.toList, Text.isVisible c = true) ∧ Number.read? symbol.toList = none := by
  have numeral : Number.read? symbol.toList = none ↔ symbol.toList ∉ Number.Grammar.numeral := by
    rw [← Number.read?_isSome_iff, Option.not_isSome_iff_eq_none]
  simp only [Text.isVisible_iff_between, numeral]
  exact ⟨fun callable => ⟨callable.nonempty, callable.visible, callable.noNumeral⟩,
    fun ⟨nonempty, visible, noNumeral⟩ => ⟨nonempty, visible, noNumeral⟩⟩

instance (symbol : String) : Decidable (Callable symbol) :=
  decidable_of_iff (symbol.toList ≠ [] ∧ symbol.toList.all Text.isVisible = true ∧
      (Number.read? symbol.toList).isNone = true)
    (by rw [callable_iff, List.all_eq_true, Option.isNone_iff_eq_none])

/-! ## To call an operator -/

variable {table : OperatorTable} {op : Operator} {literals : List (List Char)} {cs : List Char}

theorem exists_numbers (numerals : ∀ literal ∈ literals, literal ∈ Number.Grammar.numeral) :
    ∃ numbers : List Float, literals.map Number.read? = numbers.map some := by
  induction literals with
  | nil => exact ⟨[], rfl⟩
  | cons literal literals ih =>
    obtain ⟨first, others⟩ := List.forall_mem_cons.1 numerals
    obtain ⟨v, read⟩ := Option.isSome_iff_exists.1 (Number.read?_isSome_iff.2 first)
    obtain ⟨numbers, same⟩ := ih others
    exact ⟨v :: numbers, by rw [List.map_cons, List.map_cons, read, same]⟩

/-- The symbol and as many numerals as the operator takes are one expression: the operator applied to
    the numbers in their order. -/
theorem spells_of_call (callable : Callable op.symbol) (registered : table.find? op.symbol = some op)
    (numerals : ∀ literal ∈ literals, literal ∈ Number.Grammar.numeral)
    (enough : literals.length = op.arity) (spaced : Spaced (op.symbol.toList :: literals) cs) :
    ∃ operands : Vector Float op.arity, literals.map Number.read? = operands.toList.map some ∧
      ∃ tree : Expression, tree.value = op.evaluate operands ∧ table.Spells (pieces cs) tree := by
  obtain ⟨nonempty, visible, noNumber⟩ := callable_iff.1 callable
  obtain ⟨numbers, read⟩ := exists_numbers numerals
  have length : (numbers.map Expression.number).length = op.arity := by
    rw [List.length_map, ← enough, ← List.length_map Number.read?, read, List.length_map]
  obtain ⟨operands, leaves⟩ := Operands.exists_toList_eq length
  have values : operands.values.toList = numbers := by
    rw [Operands.toList_values, leaves, List.map_map]
    exact List.map_id' numbers
  refine ⟨operands.values, by rw [values, read], .apply op operands, rfl, ?_⟩
  have solid : ∀ word ∈ op.symbol.toList :: literals,
      word ≠ [] ∧ ∀ c ∈ word, Text.isVisible c = true := by
    intro word member
    obtain rfl | literal := List.mem_cons.1 member
    · exact ⟨nonempty, visible⟩
    · obtain ⟨n, spells⟩ := Number.Grammar.mem_numeral_iff.1 (numerals word literal)
      exact spells.solid
  have symbol : table.nodeOf? ⟨0, .word op.symbol.toList⟩ = some (.operator op) := by
    simp only [OperatorTable.nodeOf?, noNumber, String.ofList_toList, registered, Option.map_some]
  have leaf (literal : List Char) (member : literal ∈ literals) :
      table.nodeOf? ⟨0, .word literal⟩ = (Number.read? literal).map .number := by
    obtain ⟨v, value⟩ := Option.isSome_iff_exists.1 (Number.read?_isSome_iff.2 (numerals literal member))
    simp only [OperatorTable.nodeOf?, value, Option.map_some]
  have nodes : (Expression.apply op operands).preorder = .operator op :: numbers.map .number := by
    rw [preorder_apply, leaves, forest, List.flatMap_map, List.map_eq_flatMap]
    rfl
  rw [OperatorTable.Spells, map_nodeOf?_pieces, lexemes_of_spaced spaced solid, nodes, List.map_map,
    List.map_cons, List.map_cons]
  refine congrArg₂ List.cons symbol ?_
  calc literals.map (fun literal => table.nodeOf? ⟨0, .word literal⟩)
    _ = literals.map fun literal => (Number.read? literal).map .number := List.map_congr_left leaf
    _ = (literals.map Number.read?).map (Option.map .number) := by rw [List.map_map]; rfl
    _ = (numbers.map .number).map some := by rw [read, List.map_map, List.map_map]; rfl

/-- The symbol and as many numerals as the operator takes give one value, in both layouts. -/
theorem values_of_call (callable : Callable op.symbol) (registered : table.find? op.symbol = some op)
    (numerals : ∀ literal ∈ literals, literal ∈ Number.Grammar.numeral)
    (enough : literals.length = op.arity) {source : Source} (holds : source.Holds cs)
    (single : '\n' ∉ cs) (spaced : Spaced (op.symbol.toList :: literals) cs) :
    ∃ operands : Vector Float op.arity, literals.map Number.read? = operands.toList.map some ∧
      ∀ layout, (Run.ofSource table layout source).values = [.ok (op.evaluate operands)] := by
  obtain ⟨operands, read, tree, value, spells⟩ :=
    spells_of_call callable registered numerals enough spaced
  refine ⟨operands, read, fun layout => ?_⟩
  rw [values_of_line holds single spells layout, value]

/-! ## The words of a source -/

/-- Each word of a source that is no numeral is callable. -/
theorem callable_of_queue {layout : Layout} {source : Source} {k : Nat} {token : Token}
    (item : (TokenStream.ofSource layout source).queue.get k = .ok token) (kind : token.kind = .word) :
    Callable token.lexeme := by
  obtain ⟨chars, nonempty, visible, same⟩ := isWord_of_queue item (by simp [kind])
  rw [callable_iff, same, Token.ofWord, String.toList_ofList]
  refine ⟨nonempty, visible, ?_⟩
  cases read : Number.read? chars with
  | none => rfl
  | some v =>
    rw [same, Token.ofWord, read] at kind
    cases kind

/-! ## To register an operator that cannot be called -/

theorem agree_insert_of_uncallable (table : OperatorTable) (uncallable : ¬ Callable op.symbol)
    (layout : Layout) (source : Source) : table.Agree (table.insert op) (.ofSource layout source) := by
  intro k
  cases item : (TokenStream.ofSource layout source).queue.get k with
  | error failure => rfl
  | ok token =>
    cases kind : token.kind with
    | number v => simp only [OperatorTable.node?, OperatorTable.head?, kind]
    | ending reached => simp only [OperatorTable.node?, OperatorTable.head?, kind]
    | word =>
      have differs : op.symbol ≠ token.lexeme := fun same =>
        uncallable (same ▸ callable_of_queue item kind)
      simp only [OperatorTable.node?, OperatorTable.head?, kind, OperatorTable.find?_insert, if_neg differs]

theorem values_of_insert_uncallable (table : OperatorTable) (uncallable : ¬ Callable op.symbol)
    (layout : Layout) (source : Source) :
    (Run.ofSource (table.insert op) layout source).values = (Run.ofSource table layout source).values :=
  OperatorTable.values_of_agree (agree_insert_of_uncallable table uncallable layout source)

/-- An operator can be called exactly when its symbol is a word.
    * If the symbol is not empty, has only characters from `!` to `~` and is no numeral, then the symbol
      and as many numerals as the operator takes, with blanks between them that are no line feeds, give
      one value in both layouts: the operator applied to the numbers in their order.
    * In any other case the operator makes no difference to the values of any source, and none to what
      any report of them writes and how it ends.
    * Words that look like numbers to other readers of numbers are no numerals, and neither are lone
      points and signs. -/
theorem called_exactly_by_words (table : OperatorTable) (op : Operator) :
    (Callable op.symbol → ∀ (literals : List (List Char)) (cs : List Char) (source : Source),
        literals.length = op.arity → (∀ literal ∈ literals, literal ∈ Number.Grammar.numeral) →
        Spaced (op.symbol.toList :: literals) cs → '\n' ∉ cs → source.Holds cs →
        ∃ operands : Vector Float op.arity, literals.map Number.read? = operands.toList.map some ∧
          ∀ layout,
            (Run.ofSource (table.insert op) layout source).values = [.ok (op.evaluate operands)]) ∧
      (¬ Callable op.symbol → ∀ layout source,
        let run := Run.ofSource table layout source
        let run' := Run.ofSource (table.insert op) layout source
        run'.values = run.values ∧
          ∀ sink, (run'.report sink).result = (run.report sink).result ∧
            (run'.report sink).sink = (run.report sink).sink) ∧
      ∀ symbol ∈ ["inf", "NaN", "1e", ".", "-.", "+"], Callable symbol := by
  refine ⟨fun callable literals cs source enough numerals spaced single holds => ?_,
    fun uncallable layout source => ?_, ?_⟩
  · have registered : (table.insert op).find? op.symbol = some op := by
      rw [OperatorTable.find?_insert, if_pos rfl]
    exact values_of_call callable registered numerals enough holds single spaced
  · have same := values_of_insert_uncallable table uncallable layout source
    exact ⟨same, Run.report_congr same⟩
  · decide +kernel

/-- `1e` is a symbol that can be called, also in front of a number with an exponent, and `1e5` is none. -/
theorem called_beside_exponent :
    let op := Operator.unary "1e" Float.neg
    let source := Source.ofString "1e 1e1"
    Callable op.symbol ∧
      (∃ v, Number.read? "1e1".toList = some v ∧
        ∀ layout, (Run.ofSource (basicTable.insert op) layout source).values = [.ok (-v)]) ∧
      ¬ Callable "1e5" ∧
      ∀ layout source, (Run.ofSource (basicTable.insert (.unary "1e5" Float.neg)) layout source).values =
        (Run.ofSource basicTable layout source).values := by
  intro op source
  have callable : Callable op.symbol := by decide +kernel
  have uncallable : ¬ Callable "1e5" := by decide +kernel
  have numeral : "1e1".toList ∈ Number.Grammar.numeral := Number.read?_isSome_iff.1 (by decide +kernel)
  have chars : "1e 1e1".toList = [] ++ (op.symbol.toList ++ ([' '] ++ ("1e1".toList ++ []))) := by decide
  have blank : ∀ c ∈ [' '], Text.isBlank c = true := List.all_eq_true.1 (by decide)
  have nothing : ∀ c ∈ ([] : List Char), Text.isBlank c = true := fun c none => (List.not_mem_nil none).elim
  have spaced : Spaced [op.symbol.toList, "1e1".toList] "1e 1e1".toList := by
    rw [chars]
    have last : Spaced ["1e1".toList] ([' '] ++ ("1e1".toList ++ [])) :=
      .word blank (.blank nothing) fun some => absurd rfl some
    exact .word nothing last fun _ => ⟨' ', rfl, by decide⟩
  obtain ⟨⟨⟨numbers⟩, size⟩, read, values⟩ :=
    (called_exactly_by_words basicTable op).1 callable ["1e1".toList] _ source rfl
      (List.forall_mem_singleton.2 numeral) spaced (by decide) (Source.holds_ofString _)
  obtain ⟨v, rfl⟩ := List.length_eq_one_iff.1 (show numbers.length = 1 from size)
  refine ⟨callable, ⟨v, (List.cons.inj read).1, values⟩, uncallable, fun layout source => ?_⟩
  exact ((called_exactly_by_words basicTable (.unary "1e5" Float.neg)).2.1 uncallable layout source).1

end Polish
