import Polish.Proofs.ExpressionOutcome
import Polish.Run

/-! # One value of a run

To look at the first token before the evaluation changes nothing, so that a value is told by the items
of the stream like the expression that it is the value of, and by what closes the line.

* `nextValue_of_atEnd` and `nextValue_of_not_atEnd`: the end of the input, and everything else.
* `nextValue_of_reads` and `exists_tree_of_nextValue` go from the nodes of an expression to a value and
  back.
* `values_of_value`, `values_of_failure` and `values_of_end` unfold a run by one value.
-/

namespace Polish

namespace TokenStream

variable {s s' : TokenStream}

def AtEnd (s : TokenStream) : Prop :=
  ∃ token, s.next.1 = .ok token ∧ token.isLast = true

theorem isLast_of_not_atEnd (goesOn : ¬ s.AtEnd) {token : Token} (item : s.next.1 = .ok token) :
    token.isLast = false := by
  cases last : token.isLast with
  | false => rfl
  | true => exact absurd ⟨token, item, last⟩ goesOn

theorem closeLine_of_freeform (layout : s.layout = .freeform) : s.closeLine = (.ok (), s) := by
  rw [closeLine, layout]

theorem closeLine_of_ending {token : Token} {reached : Terminator} (layout : s.layout = .linewise)
    (taken : s.next = (.ok token, s')) (kind : token.kind = .ending reached) :
    s.closeLine = (.ok (), s') := by
  rw [closeLine, layout, taken]
  simp only [kind]

theorem closeLine_of_error {failure : Failure} (layout : s.layout = .linewise)
    (taken : s.next = (.error failure, s')) : s.closeLine = (.error failure, s') := by
  rw [closeLine, layout, taken]

theorem closeLine_of_not_ending {token : Token} (layout : s.layout = .linewise)
    (taken : s.next = (.ok token, s')) (kind : ∀ reached, token.kind ≠ .ending reached) :
    s.closeLine =
      (.error (.malformed (s'.diagnose (.secondExpression token.lexeme) token.place)), s') := by
  rw [closeLine, layout, taken]
  -- the last branch of the match is left, as `kind` rules out the one above it
  simp only

theorem exists_ending_of_closeLine (layout : s.layout = .linewise)
    (closed : s.closeLine = (.ok (), s')) :
    ∃ token reached, s.next = (.ok token, s') ∧ token.kind = .ending reached := by
  match taken : s.next with
  | (.error failure, s₁) =>
    rw [closeLine_of_error layout taken] at closed
    cases closed
  | (.ok token, s₁) =>
    by_cases ending : ∃ reached, token.kind = .ending reached
    · obtain ⟨reached, kind⟩ := ending
      rw [closeLine_of_ending layout taken kind] at closed
      cases closed
      exact ⟨token, reached, rfl, kind⟩
    · rw [closeLine_of_not_ending layout taken fun reached kind => ending ⟨reached, kind⟩] at closed
      cases closed

end TokenStream

theorem exists_token_of_node? {table : OperatorTable} {item : Except Failure Token}
    (node : (table.node? item).isSome) : ∃ token, item = .ok token := by
  cases item with
  | error failure => contradiction
  | ok token => exact ⟨token, rfl⟩

theorem isLast_of_node? {table : OperatorTable} {token : Token}
    (node : (table.node? (.ok token)).isSome) : token.isLast = false :=
  Bool.eq_false_iff.2 fun last => by
    simp [OperatorTable.node?, OperatorTable.head?, Token.isLast_iff.1 last] at node

namespace OperatorTable

variable {table : OperatorTable} {s s' : TokenStream}

theorem nextValue_of_atEnd (atEnd : s.AtEnd) : table.nextValue s = (.ok none, s.peek.2) := by
  obtain ⟨token, item, last⟩ := atEnd
  obtain ⟨s₁, looked, _⟩ := TokenStream.peek_of_next_ok (Prod.ext item rfl : s.next = (_, s.next.2))
  rw [nextValue, looked]
  simp only [last, if_true]

/-- Unless the input is at its end, a value is an expression and what closes its line. -/
theorem nextValue_of_not_atEnd (goesOn : ¬ s.AtEnd) :
    table.nextValue s =
      match table.expression s with
      | (.error failure, s') => (.error failure, s')
      | (.ok v, s') =>
        match s'.closeLine with
        | (.error failure, s') => (.error failure, s')
        | (.ok (), s') => (.ok (some v), s') := by
  rw [nextValue]
  rcases taken : s.next with ⟨failure | token, s'⟩
  · rw [TokenStream.peek_of_next_error taken, expression_eq, taken]
  · obtain ⟨s₁, looked, again⟩ := TokenStream.peek_of_next_ok taken
    have notLast : token.isLast = false := TokenStream.isLast_of_not_atEnd goesOn (by rw [taken])
    rw [looked]
    simp only [notLast, Bool.false_eq_true, if_false]
    exact expression_congr (again.trans taken.symm) ▸ rfl

theorem not_atEnd_of_node? (node : (table.node? s.next.1).isSome) : ¬ s.AtEnd := by
  rintro ⟨token, item, last⟩
  rw [isLast_of_node? (item ▸ node)] at last
  contradiction

theorem nextValue_of_failure {failure : Failure} (goesOn : ¬ s.AtEnd)
    (failed : table.expression s = (.error failure, s')) :
    table.nextValue s = (.error failure, s') := by
  rw [nextValue_of_not_atEnd goesOn, failed]

/-- No value means that the input is at its end. -/
theorem atEnd_of_nextValue (ended : table.nextValue s = (.ok none, s')) : s.AtEnd := by
  by_contra goesOn
  rw [nextValue_of_not_atEnd goesOn] at ended
  split at ended
  · cases ended
  · split at ended <;> cases ended

theorem nextValue_of_reads {tree : Expression} (reads : table.Reads s tree.preorder) :
    table.nextValue s =
      match (s.after tree.preorder.length).closeLine with
      | (.error failure, s') => (.error failure, s')
      | (.ok (), s') => (.ok (some tree.value), s') := by
  obtain ⟨head, nodes, first⟩ := List.exists_cons_of_ne_nil tree.preorder_ne_nil
  have node := (reads_cons.1 (first ▸ reads)).1
  rw [nextValue_of_not_atEnd (not_atEnd_of_node? (Option.isSome_of_eq_some node)),
    expression_of_reads reads]

/-- A value is that of an expression whose nodes come first, and whose line could be closed. -/
theorem exists_tree_of_nextValue {v : Float} (value : table.nextValue s = (.ok (some v), s')) :
    ∃ tree : Expression, tree.value = v ∧ table.Reads s tree.preorder ∧
      (s.after tree.preorder.length).closeLine = (.ok (), s') := by
  obtain ⟨n, completes⟩ | ⟨n, fails⟩ := completes_or_fails table s
  · obtain ⟨tree, _, reads⟩ := exists_tree_of_completesAt completes
    rw [nextValue_of_reads reads] at value
    refine ⟨tree, ?_⟩
    split at value
    · cases value
    · next closed =>
      cases value
      exact ⟨rfl, reads, closed⟩
  -- where no expression comes first there is no value, at the end of the input or in front of it
  · exfalso
    by_cases atEnd : s.AtEnd
    · rw [nextValue_of_atEnd atEnd] at value
      cases value
    · obtain ⟨failure, s₁, failed⟩ := exists_failure_of_failsAt fails
      rw [nextValue_of_failure atEnd failed] at value
      cases value

end OperatorTable

namespace Run

variable {run run' : Run} {table : OperatorTable} {s s' : TokenStream}

theorem values_of_next? {result : Except Failure Float} (taken : run.next? = (some result, run')) :
    run.values = result :: run'.values := by
  rw [values]
  split
  · next none => rw [taken] at none; cases none
  · next some => rw [taken] at some; cases some; rfl

theorem values_of_nothing (nothing : run.next? = (none, run')) : run.values = [] := by
  rw [values]
  split
  · rfl
  · next some => rw [nothing] at some; cases some

theorem values_of_finished : (⟨table, s, true⟩ : Run).values = [] :=
  values_of_nothing rfl

theorem values_of_value {v : Float} (taken : table.nextValue s = (.ok (some v), s')) :
    (⟨table, s, false⟩ : Run).values = .ok v :: (⟨table, s', false⟩ : Run).values := by
  refine values_of_next? ?_
  rw [next?, if_neg Bool.false_ne_true, taken]

theorem values_of_failure {failure : Failure} (taken : table.nextValue s = (.error failure, s')) :
    (⟨table, s, false⟩ : Run).values = [.error failure] := by
  have first : (⟨table, s, false⟩ : Run).next? = (some (.error failure), ⟨table, s', true⟩) := by
    rw [next?, if_neg Bool.false_ne_true, taken]
  rw [values_of_next? first, values_of_finished]

theorem values_of_end (taken : table.nextValue s = (.ok none, s')) :
    (⟨table, s, false⟩ : Run).values = [] := by
  have nothing : (⟨table, s, false⟩ : Run).next? = (none, ⟨table, s', true⟩) := by
    rw [next?, if_neg Bool.false_ne_true, taken]
  exact values_of_nothing nothing

/-- A run depends on what its stream gives next, and not on whether lines were read for it already. -/
theorem values_congr (table : OperatorTable) (same : s'.next = s.next) :
    (⟨table, s', false⟩ : Run).values = (⟨table, s, false⟩ : Run).values := by
  by_cases atEnd : s.AtEnd
  · have atEnd' : s'.AtEnd := by rwa [TokenStream.AtEnd, same]
    rw [values_of_end (OperatorTable.nextValue_of_atEnd atEnd),
      values_of_end (OperatorTable.nextValue_of_atEnd atEnd')]
  · have goesOn : ¬ s'.AtEnd := by rwa [TokenStream.AtEnd, same]
    have value : table.nextValue s' = table.nextValue s := by
      rw [OperatorTable.nextValue_of_not_atEnd goesOn, OperatorTable.nextValue_of_not_atEnd atEnd,
        OperatorTable.expression_congr same]
    rcases given : table.nextValue s with ⟨failure | _ | v, s₁⟩
    · rw [values_of_failure given, values_of_failure (value.trans given)]
    · rw [values_of_end given, values_of_end (value.trans given)]
    · rw [values_of_value given, values_of_value (value.trans given)]

end Run

end Polish
