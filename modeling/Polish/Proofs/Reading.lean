import Polish.Proofs.Items
import Polish.Proofs.Readability

/-! # What an evaluation makes of the items of a stream

The evaluation of one expression is settled by the items of the stream and by nothing else.

* `Reads` says that the next items of a stream stand for given nodes.
* `expression_of_reads`: on the nodes of a tree an evaluation gives the value of the tree, and takes
  just these items.
* `expression_of_frames_error`: a failure behind operators that wait for operands comes out as it is.
-/

namespace Polish.OperatorTable

variable {table : OperatorTable} {s s' s₁ : TokenStream} {symbol : String} {op : Operator}
  {operands : Array Float} {failure : Failure}

def Reads (table : OperatorTable) (s : TokenStream) (nodes : List Head) : Prop :=
  (s.results nodes.length).map table.node? = nodes.map some

theorem reads_cons {head : Head} {nodes : List Head} :
    table.Reads s (head :: nodes) ↔ table.node? s.next.1 = some head ∧ table.Reads s.next.2 nodes := by
  simp [Reads, TokenStream.results]

theorem reads_append {first second : List Head} :
    table.Reads s (first ++ second) ↔
      table.Reads s first ∧ table.Reads (s.after first.length) second := by
  induction first generalizing s with
  | nil => simp [Reads]
  | cons head first ih =>
    rw [List.cons_append, reads_cons, reads_cons, ih, List.length_cons, TokenStream.after, and_assoc]

/-! ## The node of an item -/

theorem next_of_node?_number {v : Float} (h : table.node? s.next.1 = some (.number v)) :
    ∃ token, s.next = (.ok token, s.next.2) ∧ token.kind = .number v := by
  generalize s.next = taken at h
  obtain ⟨_ | token, s'⟩ := taken
  · simp [node?] at h
  · refine ⟨token, rfl, ?_⟩
    simp only [node?, head?] at h
    split at h <;> simp_all

theorem next_of_node?_operator (h : table.node? s.next.1 = some (.operator op)) :
    ∃ token, s.next = (.ok token, s.next.2) ∧ token.kind = .word ∧ token.lexeme = op.symbol ∧
      table.find? op.symbol = some op := by
  generalize s.next = taken at h
  obtain ⟨_ | token, s'⟩ := taken
  · simp [node?] at h
  · refine ⟨token, rfl, ?_⟩
    simp only [node?, head?] at h
    split at h
    · simp at h
    · next kind =>
      simp only [Option.map_eq_some_iff, Head.operator.injEq, exists_eq_right] at h
      have same := symbol_of_find? h
      exact ⟨kind, same.symm, same ▸ h⟩
    · simp at h

def IsEnding (item : Except Failure Token) : Prop :=
  ∃ token reached, item = .ok token ∧ token.kind = .ending reached

theorem not_isEnding_error : ¬ IsEnding (.error failure) := by
  rintro ⟨token, reached, same, _⟩
  cases same

theorem not_isEnding_of_word {token : Token} (kind : token.kind = .word) :
    ¬ IsEnding (.ok token) := by
  rintro ⟨other, reached, same, ending⟩
  cases same
  rw [kind] at ending
  cases ending

theorem not_isEnding_of_node? {item : Except Failure Token} {head : Head}
    (h : table.node? item = some head) : ¬ IsEnding item := by
  rintro ⟨token, reached, rfl, kind⟩
  simp [node?, head?, kind] at h

/-! ## The steps of an evaluation -/

/-- An expression depends on what the next item is, and not on whether it was looked at. -/
theorem expression_congr (h : s₁.next = s.next) : table.expression s₁ = table.expression s := by
  rw [expression_eq, expression_eq table s, h]

theorem not_isEnding_of_value {v : Float} (h : table.expression s = (.ok v, s')) :
    ¬ IsEnding s.next.1 := by
  rintro ⟨token, reached, item, kind⟩
  have taken : s.next = (.ok token, s.next.2) := Prod.ext item rfl
  rw [expression_eq, taken] at h
  simp [kind] at h

theorem operandsFrom_of_not_isEnding (waits : operands.size < op.arity)
    (h : ¬ IsEnding s.next.1) :
    table.operandsFrom symbol op operands s =
      match table.expression s with
      | (.error failure, s') => (.error failure, s')
      | (.ok v, s') => table.operandsFrom symbol op (operands.push v) s' := by
  rw [operandsFrom_eq, if_pos waits]
  -- to look ahead and evaluate gives what the evaluation gives alone, on a failure and on a token
  match taken : s.next with
  | (.error failure, s') =>
    rw [TokenStream.peek_of_next_error taken, expression_eq, taken]
  | (.ok token, s') =>
    obtain ⟨s₁, looked, again⟩ := TokenStream.peek_of_next_ok taken
    rw [looked]
    simp only
    rw [expression_congr (again.trans taken.symm)]
    split
    · next reached kind => exact absurd ⟨token, reached, by rw [taken], kind⟩ h
    · rfl

/-- In front of an ending an operand is missing, and the ending stays where it is. -/
theorem operandsFrom_of_ending {token : Token} {reached : Terminator}
    (waits : operands.size < op.arity) (looked : s.peek = (.ok token, s₁))
    (kind : token.kind = .ending reached) :
    table.operandsFrom symbol op operands s =
      (.error (.malformed (s₁.diagnose
        (.missingOperand symbol op.arity operands.size reached) token.place)), s₁) := by
  rw [operandsFrom_eq, if_pos waits, looked]
  simp only [kind]

theorem operandsFrom_of_complete (complete : operands.size = op.arity) :
    table.operandsFrom symbol op operands s = (.ok operands, s) := by
  rw [operandsFrom_eq, if_neg (by omega)]

theorem expression_of_operator (h : table.node? s.next.1 = some (.operator op)) :
    table.expression s =
      match table.operandsFrom op.symbol op #[] s.next.2 with
      | (.error failure, s') => (.error failure, s')
      | (.ok operands, s') => ((op.apply operands).mapError .mismatch, s') := by
  obtain ⟨token, taken, kind, lexeme, found⟩ := next_of_node?_operator h
  rw [expression_eq, taken]
  rcases collected : table.operandsFrom op.symbol op #[] s.next.2 with ⟨failure | operands, s'⟩
  · simp only [kind, lexeme, found, collected]
  · simp only [kind, lexeme, found, collected]

/-! ## Complete expressions -/

mutual

/-- On the nodes of a tree the value of the tree is found, and these items are taken. -/
theorem expression_of_reads {s : TokenStream} {expression : Expression}
    (reads : table.Reads s expression.preorder) :
    table.expression s = (.ok expression.value, s.after expression.preorder.length) := by
  match expression with
  | .number v =>
    rw [Expression.preorder] at reads
    obtain ⟨token, taken, kind⟩ := next_of_node?_number (reads_cons.1 reads).1
    rw [expression_eq, taken]
    simp only [kind, Expression.value, Expression.preorder, List.length_singleton]
    rfl
  | .apply op operands =>
    rw [Expression.preorder] at reads
    obtain ⟨first, others⟩ := reads_cons.1 reads
    -- all operands are collected, and there are as many as the function asks for
    rw [expression_of_operator first, operandsFrom_of_reads others (by simp), Array.empty_append,
      operandsFrom_of_complete (by simp)]
    have applied : op.apply operands.values.toArray = .ok (Expression.apply op operands).value :=
      Operator.apply_eq_ok_iff.2 ⟨by simp, by rw [Expression.value]⟩
    simp only [applied]
    rw [Expression.preorder, List.length_cons, TokenStream.after]
    rfl

theorem operandsFrom_of_reads {s : TokenStream} {symbol : String} {op : Operator}
    {before : Array Float} {n : Nat} {operands : Operands n}
    (reads : table.Reads s operands.preorder) (fits : before.size + n ≤ op.arity) :
    table.operandsFrom symbol op before s =
      table.operandsFrom symbol op (before ++ operands.values.toArray)
        (s.after operands.preorder.length) := by
  match operands with
  | .nil => simp [Operands.preorder, Operands.values]
  | .cons (n := n) first others =>
    rw [Operands.preorder] at reads
    obtain ⟨head, tail⟩ := reads_append.1 reads
    have value := expression_of_reads head
    have waits : before.size < op.arity := by omega
    rw [operandsFrom_of_not_isEnding waits (not_isEnding_of_value value), value]
    simp only
    rw [operandsFrom_of_reads tail (by rw [Array.size_push]; omega), Operands.toArray_values_cons,
      ← Array.append_assoc, ← Array.push_eq_append, ← TokenStream.after_add, Operands.preorder,
      List.length_append]

end

/-! ## Operators that wait -/

theorem operandsFrom_of_forest {trees : List Expression} (reads : table.Reads s (forest trees))
    (fits : operands.size + trees.length ≤ op.arity) :
    table.operandsFrom symbol op operands s =
      table.operandsFrom symbol op (operands ++ (trees.map Expression.value).toArray)
        (s.after (forest trees).length) := by
  obtain ⟨n, length⟩ : ∃ n, trees.length = n := ⟨_, rfl⟩
  obtain ⟨children, rfl⟩ := Operands.exists_toList_eq length
  have nodes : forest children.toList = children.preorder := children.preorder_eq_flatMap.symm
  rw [nodes] at reads ⊢
  rw [operandsFrom_of_reads reads (length ▸ fits), ← children.toList_values]
  rfl

theorem expression_of_frame {frame : Frame} (reads : table.Reads s frame.nodes) :
    table.expression s =
      match table.operandsFrom frame.operator.symbol frame.operator frame.values
        (s.after frame.nodes.length) with
      | (.error failure, s') => (.error failure, s')
      | (.ok operands, s') => ((frame.operator.apply operands).mapError .mismatch, s') := by
  obtain ⟨first, others⟩ := reads_cons.1 reads
  rw [expression_of_operator first,
    operandsFrom_of_forest others (by simpa using Nat.le_of_lt frame.waits), Array.empty_append,
    Frame.nodes, List.length_cons, TokenStream.after, Frame.values]

/-- A failure behind operators that wait for operands comes out as it is, unless it is an ending. -/
theorem expression_of_frames_error {frames : List Frame}
    (reads : table.Reads s (frames.flatMap Frame.nodes))
    (notEnding : ¬ IsEnding (s.after (frames.flatMap Frame.nodes).length).next.1)
    (failed : table.expression (s.after (frames.flatMap Frame.nodes).length) = (.error failure, s')) :
    table.expression s = (.error failure, s') := by
  -- from the innermost operator outwards, each hands on what its next operand fails with
  induction frames generalizing s with
  | nil => exact failed
  | cons frame frames ih =>
    rw [List.flatMap_cons] at reads notEnding failed
    rw [List.length_append, TokenStream.after_add] at notEnding failed
    obtain ⟨first, others⟩ := reads_append.1 reads
    have inner := ih others notEnding failed
    -- that operand starts with the next operator, or with the item that fails
    have goesOn : ¬ IsEnding (s.after frame.nodes.length).next.1 := by
      cases frames with
      | nil => exact notEnding
      | cons next frames =>
        rw [List.flatMap_cons] at others
        exact not_isEnding_of_node? (reads_cons.1 (reads_append.1 others).1).1
    rw [expression_of_frame first, operandsFrom_of_not_isEnding (by simpa using frame.waits) goesOn,
      inner]

end Polish.OperatorTable
