import Polish.Proofs.Queue
import Polish.Proofs.Reading

/-! # The calls of an evaluation

An evaluation is a tree of calls: one for each expression, and below it one for each operand.  That it
ends means that this tree is finite, whatever the operators take.

* `Evaluates` and `Collects` are these trees, with the number of items that a call takes.
* `Evaluates.expression_eq`: a tree tells the result of the evaluation; `exists_evaluates`: every
  evaluation has one.
* `Evaluates.takes`: an evaluation takes the items from the front of the queue, and none of them behind
  the end of the input.  So the number of calls is bounded by the input and by nothing else.
-/

namespace Polish

namespace OperatorTable

mutual

/-- A finite tree of calls that evaluates one expression: from the stream `s` it comes to the result and
    the stream behind it, and takes `n` items. -/
inductive Evaluates (table : OperatorTable) :
    TokenStream → Except Failure Float × TokenStream → Nat → Prop where
  | failure {s s₁ : TokenStream} {failure : Failure} (taken : s.next = (.error failure, s₁)) :
      Evaluates table s (.error failure, s₁) 1
  | number {s s₁ : TokenStream} {token : Token} {v : Float} (taken : s.next = (.ok token, s₁))
      (kind : token.kind = .number v) : Evaluates table s (.ok v, s₁) 1
  | ending {s s₁ : TokenStream} {token : Token} {reached : Terminator}
      (taken : s.next = (.ok token, s₁)) (kind : token.kind = .ending reached) :
      Evaluates table s
        (.error (.malformed (s₁.diagnose (.missingExpression reached) token.place)), s₁) 1
  | unknown {s s₁ : TokenStream} {token : Token} (taken : s.next = (.ok token, s₁))
      (kind : token.kind = .word) (unregistered : table.find? token.lexeme = none) :
      Evaluates table s
        (.error (.malformed (s₁.diagnose (.unknownOperator token.lexeme) token.place)), s₁) 1
  | operator {s s₁ s₂ : TokenStream} {token : Token} {op : Operator} {operands : Array Float} {n : Nat}
      (taken : s.next = (.ok token, s₁)) (kind : token.kind = .word)
      (found : table.find? token.lexeme = some op)
      (collects : Collects table token.lexeme op #[] s₁ (.ok operands, s₂) n) :
      Evaluates table s ((op.apply operands).mapError .mismatch, s₂) (n + 1)
  | operands {s s₁ s₂ : TokenStream} {token : Token} {op : Operator} {failure : Failure} {n : Nat}
      (taken : s.next = (.ok token, s₁)) (kind : token.kind = .word)
      (found : table.find? token.lexeme = some op)
      (collects : Collects table token.lexeme op #[] s₁ (.error failure, s₂) n) :
      Evaluates table s (.error failure, s₂) (n + 1)

/-- A finite tree of calls that collects the operands which `op` still takes. -/
inductive Collects (table : OperatorTable) : String → Operator → Array Float →
    TokenStream → Except Failure (Array Float) × TokenStream → Nat → Prop where
  | complete {symbol : String} {op : Operator} {operands : Array Float} {s : TokenStream}
      (full : ¬ operands.size < op.arity) : Collects table symbol op operands s (.ok operands, s) 0
  | failure {symbol : String} {op : Operator} {operands : Array Float} {s s₁ : TokenStream}
      {failure : Failure} (waits : operands.size < op.arity) (looked : s.peek = (.error failure, s₁)) :
      Collects table symbol op operands s (.error failure, s₁) 1
  | ending {symbol : String} {op : Operator} {operands : Array Float} {s s₁ : TokenStream}
      {token : Token} {reached : Terminator} (waits : operands.size < op.arity)
      (looked : s.peek = (.ok token, s₁)) (kind : token.kind = .ending reached) :
      Collects table symbol op operands s (.error (.malformed (s₁.diagnose
        (.missingOperand symbol op.arity operands.size reached) token.place)), s₁) 0
  | operandFails {symbol : String} {op : Operator} {operands : Array Float} {s s₁ s₂ : TokenStream}
      {token : Token} {failure : Failure} {n : Nat} (waits : operands.size < op.arity)
      (looked : s.peek = (.ok token, s₁)) (kind : ∀ reached, token.kind ≠ .ending reached)
      (first : Evaluates table s₁ (.error failure, s₂) n) :
      Collects table symbol op operands s (.error failure, s₂) n
  | operand {symbol : String} {op : Operator} {operands : Array Float} {s s₁ s₂ : TokenStream}
      {token : Token} {v : Float} {result : Except Failure (Array Float) × TokenStream} {m n : Nat}
      (waits : operands.size < op.arity) (looked : s.peek = (.ok token, s₁))
      (kind : ∀ reached, token.kind ≠ .ending reached) (first : Evaluates table s₁ (.ok v, s₂) m)
      (others : Collects table symbol op (operands.push v) s₂ result n) :
      Collects table symbol op operands s result (m + n)

end

variable {table : OperatorTable} {s s₁ : TokenStream} {token : Token} {n : Nat}

/-! ## Every evaluation has a tree -/

theorem not_isEnding_of_peek (looked : s.peek = (.ok token, s₁))
    (kind : ∀ reached, token.kind ≠ .ending reached) : ¬ IsEnding s.next.1 := by
  rintro ⟨other, reached, same, ending⟩
  rw [TokenStream.next_eq_of_peek looked] at same
  cases same
  exact kind reached ending

theorem expression_of_peek (looked : s.peek = (.ok token, s₁)) :
    table.expression s₁ = table.expression s :=
  expression_congr (TokenStream.next_of_peek looked)

/-- The operands are collected one by one, as many as are missing, if every expression in the rest of
    the stream has a tree. -/
theorem exists_collects {bound : Nat}
    (evaluates : ∀ t : TokenStream, t.size ≤ bound → ∃ n, table.Evaluates t (table.expression t) n)
    (symbol : String) (op : Operator) (operands : Array Float) (small : s.size ≤ bound) :
    ∃ n, table.Collects symbol op operands s (table.operandsFrom symbol op operands s) n := by
  induction missing : op.arity - operands.size generalizing operands s with
  | zero =>
    have full : ¬ operands.size < op.arity := by omega
    rw [operandsFrom_eq, if_neg full]
    exact ⟨0, .complete full⟩
  | succ missing ih =>
    have waits : operands.size < op.arity := by omega
    rcases looked : s.peek with ⟨failure | token, s₁⟩
    · rw [operandsFrom_eq, if_pos waits, looked]
      exact ⟨1, .failure waits looked⟩
    · by_cases ending : ∃ reached, token.kind = .ending reached
      · obtain ⟨reached, kind⟩ := ending
        rw [operandsFrom_of_ending waits looked kind]
        exact ⟨0, .ending waits looked kind⟩
      · have kind (reached : Terminator) (same : token.kind = .ending reached) : False :=
          ending ⟨reached, same⟩
        have small₁ := Nat.le_trans (TokenStream.size_peek_le looked) small
        obtain ⟨m, first⟩ := evaluates s₁ small₁
        rw [operandsFrom_of_not_isEnding waits (not_isEnding_of_peek looked kind),
          ← expression_of_peek looked]
        rcases value : table.expression s₁ with ⟨failure | v, s₂⟩
        · rw [value] at first
          exact ⟨m, .operandFails waits looked kind first⟩
        · rw [value] at first
          have small₂ := Nat.le_trans (Nat.le_of_lt (size_expression_lt value)) small₁
          obtain ⟨n, others⟩ := ih (operands.push v) small₂ (by rw [Array.size_push]; omega)
          exact ⟨m + n, .operand waits looked kind first others⟩

/-- Every evaluation has a finite tree of calls. -/
theorem exists_evaluates (table : OperatorTable) (s : TokenStream) :
    ∃ n, table.Evaluates s (table.expression s) n := by
  induction size : s.size using Nat.strongRecOn generalizing s with
  | ind size ih =>
    rw [expression_eq]
    rcases taken : s.next with ⟨failure | token, s₁⟩
    · exact ⟨1, .failure taken⟩
    · cases kind : token.kind with
      | number v => exact ⟨1, by simpa only [kind] using .number taken kind⟩
      | ending reached => exact ⟨1, by simpa only [kind] using .ending taken kind⟩
      | word =>
        cases found : table.find? token.lexeme with
        | none => exact ⟨1, by simpa only [kind, found] using .unknown taken kind found⟩
        | some op =>
          -- the word has made the stream smaller, which pays for the calls below it
          have less : s₁.size < s.size :=
            TokenStream.size_next_lt_of_ok taken (by rw [Token.isLast, kind])
          have below (t : TokenStream) (small : t.size ≤ s₁.size) :
              ∃ n, table.Evaluates t (table.expression t) n :=
            ih t.size (size ▸ Nat.lt_of_le_of_lt small less) t rfl
          obtain ⟨n, collects⟩ := exists_collects below token.lexeme op #[] (Nat.le_refl s₁.size)
          refine ⟨n + 1, ?_⟩
          rcases collected : table.operandsFrom token.lexeme op #[] s₁ with ⟨failure | operands, s₂⟩
          · rw [collected] at collects
            simpa only [kind, found, collected] using .operands taken kind found collects
          · rw [collected] at collects
            simpa only [kind, found, collected] using .operator taken kind found collects

/-! ## What a tree tells -/

variable {result : Except Failure Float × TokenStream}

theorem Evaluates.expression_eq (evaluates : table.Evaluates s result n) :
    table.expression s = result := by
  refine @Evaluates.rec table (fun s result _ _ => table.expression s = result)
    (fun symbol op operands s result _ _ => table.operandsFrom symbol op operands s = result)
    ?failure ?number ?ending ?unknown ?operator ?operands
    ?complete ?lost ?missing ?operandFails ?operand s result n evaluates
  case failure =>
    intro s s₁ failure taken
    rw [OperatorTable.expression_eq, taken]
  case number =>
    intro s s₁ token v taken kind
    simp only [OperatorTable.expression_eq, taken, kind]
  case ending =>
    intro s s₁ token reached taken kind
    simp only [OperatorTable.expression_eq, taken, kind]
  case unknown =>
    intro s s₁ token taken kind unregistered
    simp only [OperatorTable.expression_eq, taken, kind, unregistered]
  case operator =>
    intro s s₁ s₂ token op operands n taken kind found _ collected
    simp only [OperatorTable.expression_eq, taken, kind, found, collected]
  case operands =>
    intro s s₁ s₂ token op failure n taken kind found _ collected
    simp only [OperatorTable.expression_eq, taken, kind, found, collected]
  case complete =>
    intro symbol op operands s full
    rw [operandsFrom_eq, if_neg full]
  case lost =>
    intro symbol op operands s s₁ failure waits looked
    rw [operandsFrom_eq, if_pos waits, looked]
  case missing =>
    intro symbol op operands s s₁ token reached waits looked kind
    exact operandsFrom_of_ending waits looked kind
  case operandFails =>
    intro symbol op operands s s₁ s₂ token failure n waits looked kind _ failed
    rw [operandsFrom_of_not_isEnding waits (not_isEnding_of_peek looked kind),
      ← expression_of_peek looked, failed]
  case operand =>
    intro symbol op operands s s₁ s₂ token v result m n waits looked kind _ _ value collected
    rw [operandsFrom_of_not_isEnding waits (not_isEnding_of_peek looked kind),
      ← expression_of_peek looked, value]
    exact collected

/-- The first `n` items were taken from the front of the queue, and at most the last of them is the end
    of the input, which is never part of what succeeds. -/
structure Takes {α : Type} (q : Queue) (n : Nat) (result : Except Failure α) (q' : Queue) : Prop where
  rest : q' = q.drop n
  inside : q.Spares (n - 1)
  value : ∀ v, result = .ok v → q.Spares n

section

variable {α β : Type} {q q₁ q' : Queue} {m : Nat}

theorem Takes.none (result : Except Failure α) : Takes q 0 result q where
  rest := rfl
  inside i less := absurd less (Nat.not_lt_zero i)
  value _ _ i less := absurd less (Nat.not_lt_zero i)

theorem Takes.failure (failure : Failure) : Takes q 1 (.error failure : Except Failure α) q.tail where
  rest := rfl
  inside i less := absurd less (Nat.not_lt_zero i)
  value v same := by cases same

theorem Takes.mono {result : Except Failure α} {result' : Except Failure β} (takes : Takes q n result q')
    (succeeds : ∀ w, result' = .ok w → ∃ v, result = .ok v) : Takes q n result' q' where
  rest := takes.rest
  inside := takes.inside
  value w same := by
    obtain ⟨v, value⟩ := succeeds w same
    exact takes.value v value

/-- What succeeded is followed by what is taken behind it. -/
theorem Takes.append {v : α} {result : Except Failure β} (first : Takes q m (.ok v) q₁)
    (second : Takes q₁ n result q') : Takes q (m + n) result q' := by
  obtain ⟨rfl, _, spares⟩ := first
  have all := spares v rfl
  have behind : ∀ k, Queue.Spares (q.drop m) k → q.Spares (m + k) := by
    intro k others i less token item
    by_cases front : i < m
    · exact all i front token item
    · obtain ⟨j, rfl⟩ := Nat.exists_eq_add_of_le (Nat.le_of_not_lt front)
      exact others j (by omega) token ((Stream'.get_drop j m q).trans item)
  constructor
  · rw [second.rest, Stream'.drop_drop]
  · cases n with
    | zero => exact fun i less => all i (by omega)
    | succ n => exact behind n second.inside
  · exact fun w same => behind n (second.value w same)

end

theorem queue_of_next {item : Except Failure Token} (taken : s.next = (item, s₁)) :
    s₁.queue = s.queue.tail := congrArg (fun result => TokenStream.queue result.2) taken.symm

theorem takes_token (taken : s.next = (.ok token, s₁)) (goesOn : token.isLast = false) :
    Takes s.queue 1 (.ok token) s₁.queue where
  rest := queue_of_next taken
  inside i less := absurd less (Nat.not_lt_zero i)
  value _ _ i less other item := by
    obtain rfl := Nat.lt_one_iff.1 less
    have first : s.next.1 = .ok other := item
    rw [taken] at first
    cases first
    exact goesOn

/-- An evaluation takes the first items of the queue, and ends when it meets the end of the input. -/
theorem Evaluates.takes (evaluates : table.Evaluates s result n) :
    Takes s.queue n result.1 result.2.queue := by
  refine @Evaluates.rec table (fun s result n _ => Takes s.queue n result.1 result.2.queue)
    (fun _ _ _ s result n _ => Takes s.queue n result.1 result.2.queue)
    ?failure ?number ?ending ?unknown ?operator ?operands
    ?complete ?lost ?missing ?operandFails ?operand s result n evaluates
  case failure =>
    intro s s₁ failure taken
    exact queue_of_next taken ▸ .failure failure
  case number =>
    intro s s₁ token v taken kind
    exact (takes_token taken (by rw [Token.isLast, kind])).mono fun _ _ => ⟨token, rfl⟩
  case ending =>
    intro s s₁ token reached taken kind
    exact queue_of_next taken ▸ .failure _
  case unknown =>
    intro s s₁ token taken kind unregistered
    exact queue_of_next taken ▸ .failure _
  case operator =>
    intro s s₁ s₂ token op operands n taken kind found _ others
    have takes := (takes_token taken (by rw [Token.isLast, kind])).append others
    exact Nat.add_comm 1 n ▸ takes.mono fun _ _ => ⟨operands, rfl⟩
  case operands =>
    intro s s₁ s₂ token op failure n taken kind found _ others
    have takes := (takes_token taken (by rw [Token.isLast, kind])).append others
    exact Nat.add_comm 1 n ▸ takes.mono fun w same => by cases same
  case complete =>
    intro symbol op operands s full
    exact .none _
  case lost =>
    intro symbol op operands s s₁ failure waits looked
    exact queue_of_next (TokenStream.next_of_peek_error looked) ▸ .failure failure
  case missing =>
    intro symbol op operands s s₁ token reached waits looked kind
    exact TokenStream.queue_of_peek looked ▸ .none _
  case operandFails =>
    intro symbol op operands s s₁ s₂ token failure n waits looked kind _ takes
    exact TokenStream.queue_of_peek looked ▸ takes.mono fun w same => by cases same
  case operand =>
    intro symbol op operands s s₁ s₂ token v result m n waits looked kind _ _ first others
    exact TokenStream.queue_of_peek looked ▸ first.append others

/-- If the end of the input stands behind `k` items, an evaluation takes at most one more. -/
theorem Evaluates.le_of_isLast (evaluates : table.Evaluates s result n) {k : Nat}
    (item : s.queue.get k = .ok token) (last : token.isLast = true) : n ≤ k + 1 := by
  by_contra more
  have goesOn := evaluates.takes.inside k (by omega) token item
  rw [last] at goesOn
  contradiction

end OperatorTable

end Polish
