import Polish.OperatorTable
import Polish.TokenStream.Size

/-! # Evaluation of one expression

An expression is a number, or a word that names an operator followed by as many expressions as the
operator takes.

* `OperatorTable.expression` takes the tokens of one expression from a stream and gives its value;
  `OperatorTable.operandsFrom` collects the operands of an operator, one expression after the other.
  A token is taken only when the expression needs it, so that the stream stands right behind the
  last one.
* The two call each other on what is left of the stream.  That this ends is a matter of the size of
  the stream, and so they carry a bound on it: `Taken`.  The equations `expression_eq` and
  `operandsFrom_eq` are free of it.
* `size_expression_lt` says that every value costs at least one token.
-/

namespace Polish

/-- What was taken from the stream `s`: a result, and the stream behind it, which has not grown. -/
abbrev Taken (s : TokenStream) (α : Type) :=
  { taken : Except Failure α × TokenStream // taken.2.size ≤ s.size }

namespace Taken

variable {s s' : TokenStream} {α β : Type}

def fail (failure : Failure) (s' : TokenStream) (le : s'.size ≤ s.size) : Taken s α :=
  ⟨(.error failure, s'), le⟩

def refuse (cause : Cause) (token : Token) (s' : TokenStream) (le : s'.size ≤ s.size) :
    Taken s α :=
  fail (.malformed (s'.diagnose cause token.place)) s' le

end Taken

namespace OperatorTable

mutual

def takeExpression (table : OperatorTable) (s : TokenStream) : Taken s Float :=
  match taken : s.next with
  | (.error failure, s₁) => .fail failure s₁ (TokenStream.size_next_le taken)
  | (.ok token, s₁) =>
    have smaller := TokenStream.size_next_le taken
    match _kind : token.kind with
    | .number v => ⟨(.ok v, s₁), smaller⟩
    | .ending reached => .refuse (.missingExpression reached) token s₁ smaller
    | .word =>
      match table.find? token.lexeme with
      | none => .refuse (.unknownOperator token.lexeme) token s₁ smaller
      | some op =>
        match table.takeOperands token.lexeme op #[] s₁ with
        | ⟨(.error failure, s₂), le⟩ => .fail failure s₂ (Nat.le_trans le smaller)
        | ⟨(.ok operands, s₂), le⟩ =>
          ⟨((op.apply operands).mapError .mismatch, s₂), Nat.le_trans le smaller⟩
termination_by (s.size, 0)
decreasing_by
  -- a word is not the end of the input, so that taking it has made the stream smaller
  have less : s₁.size < s.size :=
    TokenStream.size_next_lt_of_ok taken (by simp [Token.isLast, _kind])
  exact Prod.Lex.left _ _ less

/-- The operands that `op`, the operator named `symbol`, still takes from the stream `s` when it has
    `operands` already. -/
def takeOperands (table : OperatorTable) (symbol : String) (op : Operator) (operands : Array Float)
    (s : TokenStream) : Taken s (Array Float) :=
  if _waits : operands.size < op.arity then
    match looked : s.peek with
    | (.error failure, s₁) => .fail failure s₁ (TokenStream.size_peek_le looked)
    | (.ok token, s₁) =>
      have smaller := TokenStream.size_peek_le looked
      match token.kind with
      | .ending reached =>
        .refuse (.missingOperand symbol op.arity operands.size reached) token s₁ smaller
      | _ =>
        match table.takeExpression s₁ with
        | ⟨(.error failure, s₂), le⟩ => .fail failure s₂ (Nat.le_trans le smaller)
        | ⟨(.ok v, s₂), le⟩ =>
          have smaller := Nat.le_trans le smaller
          match table.takeOperands symbol op (operands.push v) s₂ with
          | ⟨taken, le⟩ => ⟨taken, Nat.le_trans le smaller⟩
  else ⟨(.ok operands, s), Nat.le_refl _⟩
termination_by (s.size, op.arity - operands.size + 1)
decreasing_by
  -- looking ahead may leave the size as it is; the order then puts an expression below its operands
  · rcases Nat.lt_or_eq_of_le smaller with less | same
    · exact Prod.Lex.left _ _ less
    · rw [same]
      exact Prod.Lex.right _ (Nat.succ_pos _)
  -- and behind an operand there is one less to take
  · have fewer : op.arity - (operands.push v).size + 1 < op.arity - operands.size + 1 := by
      rw [Array.size_push]
      omega
    rcases Nat.lt_or_eq_of_le smaller with less | same
    · exact Prod.Lex.left _ _ less
    · rw [same]
      exact Prod.Lex.right _ fewer

end

def expression (table : OperatorTable) (s : TokenStream) : Except Failure Float × TokenStream :=
  (table.takeExpression s).val

def operandsFrom (table : OperatorTable) (symbol : String) (op : Operator) (operands : Array Float)
    (s : TokenStream) : Except Failure (Array Float) × TokenStream :=
  (table.takeOperands symbol op operands s).val

/-- What an expression is, by its first token. -/
theorem expression_eq (table : OperatorTable) (s : TokenStream) :
    table.expression s =
      match s.next with
      | (.error failure, s₁) => (.error failure, s₁)
      | (.ok token, s₁) =>
        match token.kind with
        | .number v => (.ok v, s₁)
        | .ending reached =>
          (.error (.malformed (s₁.diagnose (.missingExpression reached) token.place)), s₁)
        | .word =>
          match table.find? token.lexeme with
          | none =>
            (.error (.malformed (s₁.diagnose (.unknownOperator token.lexeme) token.place)), s₁)
          | some op =>
            match table.operandsFrom token.lexeme op #[] s₁ with
            | (.error failure, s₂) => (.error failure, s₂)
            | (.ok operands, s₂) => ((op.apply operands).mapError .mismatch, s₂) := by
  unfold expression operandsFrom
  rw [takeExpression]
  -- the branches are the same; all that goes is the bound that comes with each of them
  split
  · next failure s₁ taken => simp only [taken, Taken.fail]
  · next token s₁ taken =>
    simp only [taken]
    split
    · next v kind => simp only [kind]
    · next reached kind => simp only [kind, Taken.refuse, Taken.fail]
    · next kind =>
      simp only [kind]
      split
      · simp only [Taken.refuse, Taken.fail]
      · split <;> simp_all [Taken.fail]

theorem operandsFrom_eq (table : OperatorTable) (symbol : String) (op : Operator)
    (operands : Array Float) (s : TokenStream) :
    table.operandsFrom symbol op operands s =
      if operands.size < op.arity then
        match s.peek with
        | (.error failure, s₁) => (.error failure, s₁)
        | (.ok token, s₁) =>
          match token.kind with
          | .ending reached =>
            (.error (.malformed (s₁.diagnose
              (.missingOperand symbol op.arity operands.size reached) token.place)), s₁)
          | _ =>
            match table.expression s₁ with
            | (.error failure, s₂) => (.error failure, s₂)
            | (.ok v, s₂) => table.operandsFrom symbol op (operands.push v) s₂
      else (.ok operands, s) := by
  unfold expression operandsFrom
  rw [takeOperands]
  by_cases waits : operands.size < op.arity
  · simp only [waits, if_true, dite_true]
    split
    · next failure s₁ looked => simp only [looked, Taken.fail]
    · next token s₁ looked =>
      simp only [looked]
      split
      · simp only [Taken.refuse, Taken.fail]
      · split <;> simp_all [Taken.fail]
  · simp only [waits, if_false, dite_false]

/-! ## Sizes -/

theorem size_operandsFrom_le {table : OperatorTable} {symbol : String} {op : Operator}
    {operands : Array Float} {s s' : TokenStream} {r : Except Failure (Array Float)}
    (h : table.operandsFrom symbol op operands s = (r, s')) : s'.size ≤ s.size := by
  have le := (table.takeOperands symbol op operands s).property
  rw [operandsFrom] at h
  rw [h] at le
  exact le

theorem size_expression_lt {table : OperatorTable} {s s' : TokenStream} {v : Float}
    (h : table.expression s = (.ok v, s')) : s'.size < s.size := by
  rw [expression_eq] at h
  split at h
  · cases h
  · next token s₁ taken =>
    split at h
    · next kind =>
      cases h
      exact TokenStream.size_next_lt_of_ok taken (by simp [Token.isLast, kind])
    · cases h
    · next kind =>
      have less : s₁.size < s.size :=
        TokenStream.size_next_lt_of_ok taken (by simp [Token.isLast, kind])
      split at h
      · cases h
      · split at h
        · cases h
        · next collected =>
          obtain ⟨_, rfl⟩ := Prod.mk.inj h
          exact Nat.lt_of_le_of_lt (size_operandsFrom_le collected) less

end OperatorTable

end Polish
