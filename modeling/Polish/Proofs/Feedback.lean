import Polish.Proofs.Reports
import Polish.Proofs.RoundTrip
import Polish.Proofs.ValueOutcome

/-! # Results that are read again

What a report has written can be read again, in either layout and with any table.  Each of its lines is
one word: a finite double is a numeral and gives itself, and any other double is a word that only an
operator could give a meaning.

* `specialWord` is the word for a double that is not finite.
* `pieces_valueLine` and `reads_of_linesOf`: what was written has a line with one word for each value.
* `StandsBefore` is a stream in front of some of these lines; `StandsBefore.exists_nextValue` and
  `StandsBefore.exists_nextValue_of_unknown` read one of them, `StandsBefore.exists_behind` many.
* `results_read_again` puts this together.
-/

namespace Polish

open Number (magnitudeBits infinityBits binade)

variable {v : Float} {vs : List Float}

/-! ## What is written -/

/-- The word for a double that is not finite. -/
def specialWord (v : Float) : String :=
  if v.isNaN = true then "NaN" else if Number.isNegative v = true then "-inf" else "inf"

theorem specialWord_mem (v : Float) : specialWord v ∈ ["inf", "-inf", "NaN"] := by
  rw [specialWord]
  split
  · decide
  · split <;> decide

theorem write_of_not_isFinite (special : v.isFinite ≠ true) :
    Number.write v = (specialWord v).toList := by
  rw [specialWord]
  split
  · next nan =>
    have above : infinityBits < magnitudeBits v := Number.isNaN_iff.1 nan
    have nan' : Number.isNaN v = true := decide_eq_true above
    simp only [Number.write, nan', if_true]
  · next number =>
    have bits := Number.magnitudeBits_eq_infinityBits (Bool.eq_false_iff.2 number) special
    have number' : Number.isNaN v = false := by
      rw [Number.isNaN, bits]
      exact decide_eq_false (lt_irrefl _)
    have field : infinityBits / binade = 2047 := by decide
    have none : Number.Binary.ofFloat? v = none := by
      simp only [Number.Binary.ofFloat?, bits, field, if_true]
    simp only [Number.write, number', none, Bool.false_eq_true, if_false]
    split <;> rfl

/-- Each double is written as a word. -/
theorem write_solid (v : Float) :
    Number.write v ≠ [] ∧ ∀ c ∈ Number.write v, Text.isVisible c = true := by
  by_cases finite : v.isFinite = true
  · exact ⟨Number.write_ne_nil finite, fun c => Number.isVisible_of_mem_write finite⟩
  · have words : ["inf", "-inf", "NaN"].all
        (fun word => word.toList ≠ [] ∧ word.toList.all Text.isVisible = true) = true := by decide
    have solid := of_decide_eq_true (List.all_eq_true.1 words _ (specialWord_mem v))
    rw [write_of_not_isFinite finite]
    exact ⟨solid.1, List.all_eq_true.1 solid.2⟩

theorem read?_write_of_not_isFinite (special : v.isFinite ≠ true) :
    Number.read? (Number.write v) = none := by
  have words : ["inf", "-inf", "NaN"].all
      (fun word => (Number.read? word.toList).isNone) = true := by decide +kernel
  rw [write_of_not_isFinite special, ← Option.isNone_iff_eq_none]
  exact List.all_eq_true.1 words _ (specialWord_mem v)

theorem pieces_valueLine (v : Float) : pieces (valueLine v) = [⟨0, .word (Number.write v)⟩] := by
  have blank : ∀ c ∈ ['\n'], Text.isBlank c = true := List.all_eq_true.1 (by decide)
  rw [valueLine, pieces_append_blank blank, pieces_of_visible (write_solid v).1 (write_solid v).2]

theorem linesBy_valueLines (vs : List Float) :
    linesBy '\n' (vs.flatMap valueLine) = vs.map valueLine := by
  induction vs with
  | nil => rfl
  | cons v vs ih =>
    have unmarked : '\n' ∉ Number.write v := fun feed => by
      cases (write_solid v).2 _ feed
    rw [List.flatMap_cons, valueLine, List.append_assoc, List.singleton_append,
      linesBy_append_mark unmarked, ih]
    rfl

/-- A source that holds what was written has a line for each value. -/
theorem reads_of_linesOf {source : Source} (holds : source.signals = (linesOf vs).map .byte) :
    source.reads = (vs.map valueLine).map TokenStream.readOf := by
  have encoded : linesOf vs = Text.encode (vs.flatMap valueLine) := List.flatMap_assoc.symm
  rw [encoded] at holds
  rw [← linesBy_valueLines]
  exact Source.reads_of_text holds

/-! ## What a line gives -/

namespace TokenStream

variable {s : TokenStream} {lines : List (List Char)} {table : OperatorTable}

/-- The line held is used up, and `lines` are what the source still holds. -/
structure StandsBefore (s : TokenStream) (lines : List (List Char)) : Prop where
  ready : s.Ready
  nothing : s.onLine? = none
  unread : s.unread = lines.map readOf

/-- The token of the line that `v` is written on. -/
def tokenOf (v : Float) (n : Nat) : Token :=
  .ofWord (Number.write v) ⟨n, 0, (Number.write v).length⟩

theorem itemsOfLine_valueLine (layout : Layout) (n : Nat) (v : Float) :
    itemsOfLine layout n (valueLine v) = .ok (tokenOf v n) ::
      if layout = .linewise then [.ok (endingOf .endOfLine (valueLine v) n)] else [] := by
  have feed : (valueLine v).getLast? = some '\n' := List.getLast?_concat
  have place : Piece.stop ⟨0, .word (Number.write v)⟩ = (Number.write v).length := Nat.zero_add _
  simp only [itemsOfLine, pieces_valueLine, List.map_singleton, Piece.item, place, feed, and_true]
  rfl

theorem StandsBefore.exists_gives (stands : s.StandsBefore (valueLine v :: lines)) :
    ∃ s', s.Gives (itemsOfLine s.layout (s.line + 1) (valueLine v)) s' ∧
      (s.after 1).text = valueLine v ∧ s'.StandsBefore lines ∧ s'.line = s.line + 1 := by
  have first := stands.ready.next_of_read stands.nothing stands.unread
  obtain ⟨s', gives, ready, nothing, unread, _, number, _⟩ := gives_line
    (s := (s.advance (readOf (valueLine v)).size (lines.map readOf)).hold (valueLine v))
    ⟨stands.ready.idle, stands.ready.unfinished⟩ rfl (Nat.succ_pos _) rfl
  have some : itemsOfLine s.layout (s.line + 1) (valueLine v) ≠ [] := by
    rw [itemsOfLine_valueLine]
    exact List.cons_ne_nil _ _
  refine ⟨s', gives_congr first some gives, ?_, ⟨ready, nothing, unread⟩, number⟩
  have same := unread
  rw [← gives.2] at same
  rw [TokenStream.after, first, ← TokenStream.after]
  exact text_after same (List.length_pos_iff.2 some)

theorem StandsBefore.atEnd (stands : s.StandsBefore []) : s.AtEnd :=
  ⟨_, by rw [stands.ready.next_at_end stands.nothing stands.unread], rfl⟩

/-- A finite double gives itself. -/
theorem StandsBefore.exists_nextValue (stands : s.StandsBefore (valueLine v :: lines))
    (finite : v.isFinite = true) (table : OperatorTable) :
    ∃ s', table.nextValue s = (.ok (some v), s') ∧ s'.StandsBefore lines ∧ s'.line = s.line + 1 := by
  obtain ⟨s', gives, _, behind, number⟩ := stands.exists_gives
  rw [itemsOfLine_valueLine] at gives
  refine ⟨s', ?_, behind, number⟩
  have first := gives.next_eq
  have node : table.node? s.next.1 = some (.number v) := by
    rw [first, tokenOf, Token.ofWord, Number.read?_write finite]
    rfl
  have reads : table.Reads s (Expression.number v).preorder :=
    OperatorTable.reads_cons.2 ⟨node, rfl⟩
  cases layout : s.layout with
  | freeform =>
    rw [layout, if_neg (by decide)] at gives
    obtain ⟨_, _, value, _, goesOn⟩ :=
      OperatorTable.nextValue_of_outcome (.value reads layout)
    obtain rfl := goesOn v rfl
    rw [value, ← gives.2]
    rfl
  | linewise =>
    rw [layout, if_pos rfl, ← List.singleton_append] at gives
    have second := gives.split.2.next_eq
    obtain ⟨_, _, value, _, goesOn⟩ :=
      OperatorTable.nextValue_of_outcome (.line reads layout (congrArg Prod.fst second) rfl)
    obtain rfl := goesOn v rfl
    rw [value, ← gives.2]
    rfl

/-- A double that is not finite gives the failure that its word is no operator. -/
theorem StandsBefore.exists_nextValue_of_unknown (stands : s.StandsBefore (valueLine v :: lines))
    (special : v.isFinite ≠ true) (unknown : table.find? (specialWord v) = none) :
    ∃ s', table.nextValue s = (.error (.malformed (.located (.unknownOperator (specialWord v))
      ⟨s.line + 1, 0, (specialWord v).length⟩ (String.ofList (valueLine v)))), s') := by
  obtain ⟨_, gives, text, _, _⟩ := stands.exists_gives
  rw [itemsOfLine_valueLine] at gives
  have first : (s.after 0).next.1 = .ok (tokenOf v (s.line + 1)) := congrArg Prod.fst gives.next_eq
  have kind : (tokenOf v (s.line + 1)).kind = .word := by
    rw [tokenOf, Token.ofWord, read?_write_of_not_isFinite special]
  have lexeme : (tokenOf v (s.line + 1)).lexeme = specialWord v := by
    rw [tokenOf, Token.ofWord, write_of_not_isFinite special, String.ofList_toList]
  have place : (tokenOf v (s.line + 1)).place = ⟨s.line + 1, 0, (specialWord v).length⟩ := by
    rw [tokenOf, Token.ofWord, write_of_not_isFinite special, String.length_toList]
  have obstacle : table.node? (s.after 0).next.1 = none := by
    rw [first]
    simp only [OperatorTable.node?, OperatorTable.head?, kind, lexeme, unknown, Option.map_none]
  obtain ⟨s', _, failed, _⟩ := OperatorTable.nextValue_of_outcome
    (.refused first (.unknown (OperatorTable.failsAt_zero obstacle) kind))
  rw [TokenStream.diagnose, text, lexeme, place] at failed
  exact ⟨s', failed⟩

/-- The finite doubles that come first give themselves, one after the other. -/
theorem StandsBefore.exists_behind {first : List Float} (finite : ∀ v ∈ first, v.isFinite = true)
    (stands : s.StandsBefore ((first ++ vs).map valueLine)) (table : OperatorTable) :
    ∃ s', s'.StandsBefore (vs.map valueLine) ∧ s'.line = s.line + first.length ∧
      (⟨table, s, false⟩ : Run).values = first.map .ok ++ (⟨table, s', false⟩ : Run).values := by
  induction first generalizing s with
  | nil => exact ⟨s, stands, rfl, rfl⟩
  | cons v first ih =>
    obtain ⟨here, later⟩ := List.forall_mem_cons.1 finite
    obtain ⟨s₁, value, stands₁, number⟩ := stands.exists_nextValue here table
    obtain ⟨s', behind, counted, values⟩ := ih later stands₁
    refine ⟨s', behind, ?_, ?_⟩
    · rw [counted, number, List.length_cons]
      omega
    · rw [Run.values_of_value value, values]
      rfl

end TokenStream

/-! ## Whole results -/

variable {source : Source}

theorem standsBefore_of_linesOf (layout : Layout) (holds : source.signals = (linesOf vs).map .byte) :
    (TokenStream.ofSource layout source).StandsBefore (vs.map valueLine) :=
  ⟨⟨rfl, rfl⟩, rfl, reads_of_linesOf holds⟩

/-- Results can be read again: what a report writes for values `vs`, those in front of a failure
    included, can be given to any table in either layout.
    * If all the values are finite they are given again, every bit of them, without a failure, and the
      same text is written again.
    * If one of them is the first that is not finite, and the table has none of the three words as an
      operator, then the values in front of it are given, and after them the failure that the word for
      it is an unknown operator, with the number of its line and the columns of the word. -/
theorem results_read_again (table : OperatorTable) (layout : Layout) (source : Source) :
    let run := Run.ofSource table layout source
    let written := (run.report {}).sink.content.toList
    ∃ (vs : List Float) (final : Option Failure),
      run.values = vs.map .ok ++ (final.map .error).toList ∧
        ∀ (other : OperatorTable) (layout' : Layout) (fed : Source),
          fed.signals = written.map .byte →
          let again := Run.ofSource other layout' fed
          let report := again.report {}
          ((∀ v ∈ vs, v.isFinite = true) → again.values = vs.map .ok ∧
            report.result = .ok vs.length ∧ report.sink.content.toList = written) ∧
          ∀ before v behind, vs = before ++ v :: behind → (∀ w ∈ before, w.isFinite = true) →
            v.isFinite = false → (∀ symbol ∈ ["inf", "-inf", "NaN"], other.find? symbol = none) →
            ∃ d word, word = (if v.isNaN = true then "NaN"
                else if Number.isNegative v = true then "-inf" else "inf") ∧
              again.values = before.map .ok ++ [.error (.malformed d)] ∧
              report.result = .error (.malformed d) ∧
              d.cause.message = "unknown operator `" ++ word ++ "`" ∧
              d.place = some ⟨before.length + 1, 0, word.length⟩ := by
  intro run written
  obtain ⟨vs, final, given⟩ := run.exists_delivery
  have text : written = linesOf vs := (Run.report_of_free given Sink.free_empty).2.1
  refine ⟨vs, final, given, fun other layout' fed holds => ?_⟩
  intro again report
  rw [text] at holds ⊢
  have stands := standsBefore_of_linesOf layout' holds
  constructor
  · intro finite
    rw [← List.append_nil vs] at stands
    obtain ⟨s', stands', _, values⟩ := stands.exists_behind finite other
    rw [Run.values_of_end (OperatorTable.nextValue_of_atEnd stands'.atEnd)] at values
    have all : again.values = delivery vs none := values
    obtain ⟨result, content, _⟩ := Run.report_of_free all Sink.free_empty
    exact ⟨values.trans (List.append_nil _), result, content⟩
  · rintro before v behind rfl finite special unknown
    obtain ⟨s', stands', number, values⟩ := stands.exists_behind finite other
    obtain ⟨_, failed⟩ := stands'.exists_nextValue_of_unknown (Bool.eq_false_iff.1 special)
      (unknown _ (specialWord_mem v))
    rw [Run.values_of_failure failed] at values
    have all : again.values = delivery before (some _) := values
    have line : s'.line = before.length := number.trans (Nat.zero_add _)
    refine ⟨_, specialWord v, rfl, values, (Run.report_of_free all Sink.free_empty).1, rfl, ?_⟩
    rw [← line]
    rfl

/-- An infinite result can be written, but not read again. -/
theorem infinity_read_again :
    let run := Run.ofSource basicTable .linewise (.ofString "1e999")
    ∃ v d, run.values = [.ok v] ∧ v.isFinite = false ∧
      (Run.ofSource basicTable .freeform [.data (run.report {}).sink.content.toList]).values =
        [.error (.malformed d)] ∧
      d.cause.message = "unknown operator `inf`" ∧ d.place = some ⟨1, 0, 3⟩ := by
  intro run
  have numeral : Number.Numeral.read? "1e999".toList =
      some ⟨false, "1".toList, [], ⟨false, "999".toList⟩⟩ := by decide +kernel
  have infinite : Number.Decimal.bits (Number.Numeral.decimal
      ⟨false, "1".toList, [], ⟨false, "999".toList⟩⟩) = infinityBits := by decide +kernel
  have read : Number.read? "1e999".toList = some (Number.ofMagnitude false infinityBits) := by
    rw [Number.read?, numeral, Option.map_some, Number.Numeral.toFloat, infinite]
  have bits := Number.magnitudeBits_ofMagnitude false (le_refl infinityBits)
  have sign := Number.isNegative_ofMagnitude false (le_refl infinityBits)
  generalize Number.ofMagnitude false infinityBits = v at read bits sign
  have special : v.isFinite = false := by
    rw [← Bool.not_eq_true, Number.isFinite_iff, bits]
    exact lt_irrefl _
  have number : v.isNaN = false := by
    rw [← Bool.not_eq_true, Number.isNaN_iff, bits]
    exact lt_irrefl _
  have spells : basicTable.Spells (pieces "1e999".toList) (.number v) := by
    have visible := List.all_eq_true.1 (by decide : "1e999".toList.all Text.isVisible = true)
    have node : basicTable.nodeOf? ⟨0, .word "1e999".toList⟩ = some (.number v) := by
      simp only [OperatorTable.nodeOf?, read]
    rw [OperatorTable.Spells, pieces_of_visible (by decide) visible, List.map_singleton, node]
    rfl
  have values : run.values = [.ok v] :=
    values_of_line (Source.holds_ofString "1e999") (by decide) spells .linewise
  obtain ⟨vs, final, given, fed⟩ := results_read_again basicTable .linewise (.ofString "1e999")
  have both : delivery vs final = delivery [v] none := given.symm.trans values
  obtain ⟨rfl, rfl⟩ := delivery_inj both
  have unknown := List.all_eq_true.1 (by decide +kernel : ["inf", "-inf", "NaN"].all
    (fun symbol => (basicTable.find? symbol).isNone) = true)
  obtain ⟨d, word, rfl, failed, _, message, place⟩ := (fed basicTable .freeform
    [.data (run.report {}).sink.content.toList] (List.append_nil _)).2 [] v [] rfl
    (List.forall_mem_nil _) special fun symbol member => Option.isNone_iff_eq_none.1 (unknown symbol member)
  rw [number, sign] at message place
  exact ⟨v, d, values, special, failed, message, place⟩

end Polish
