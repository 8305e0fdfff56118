import Polish.Evaluation

/-! # Expressions as trees

An expression is a number or an operator with an expression for each of its operands.  The text of an
expression lists the nodes of its tree from the left, each operator before its operands.

* `Expression.value` is the meaning of a tree: the operators applied to the values of their operands.
* `Expression.preorder` is the order in which the text gives the nodes.
* `OperatorTable.node?` is the node that an item of a token stream stands for.
-/

namespace Polish

mutual

inductive Expression where
  | number (v : Float)
  | apply (op : Operator) (operands : Operands op.arity)

/-- As many expressions as an operator takes. -/
inductive Operands : Nat → Type where
  | nil : Operands 0
  | cons {n : Nat} (first : Expression) (others : Operands n) : Operands (n + 1)

end

mutual

def Expression.value : Expression → Float
  | .number v => v
  | .apply op operands => op.evaluate operands.values

def Operands.values : {n : Nat} → Operands n → Vector Float n
  | _, .nil => #v[]
  | n + 1, .cons first others => (#v[first.value] ++ others.values).cast (Nat.add_comm 1 n)

end

/-- A node of a tree without what is below it. -/
inductive Head where
  | number (v : Float)
  | operator (op : Operator)

mutual

def Expression.preorder : Expression → List Head
  | .number v => [.number v]
  | .apply op operands => .operator op :: operands.preorder

def Operands.preorder : {n : Nat} → Operands n → List Head
  | _, .nil => []
  | _, .cons first others => first.preorder ++ others.preorder

end

def OperatorTable.head? (table : OperatorTable) (token : Token) : Option Head :=
  match token.kind with
  | .number v => some (.number v)
  | .word => (table.find? token.lexeme).map .operator
  | .ending _ => none

def OperatorTable.node? (table : OperatorTable) : Except Failure Token → Option Head
  | .ok token => table.head? token
  | .error _ => none

/-! ## Operands as a list -/

namespace Operands

def toList : {n : Nat} → Operands n → List Expression
  | _, .nil => []
  | _, .cons first others => first :: others.toList

@[simp]
theorem length_toList {n : Nat} (operands : Operands n) : operands.toList.length = n := by
  induction n with
  | zero => cases operands; rfl
  | succ n ih =>
    cases operands with
    | cons first others => rw [toList, List.length_cons, ih]

theorem exists_toList_eq {n : Nat} {expressions : List Expression} (length : expressions.length = n) :
    ∃ operands : Operands n, operands.toList = expressions := by
  induction expressions generalizing n with
  | nil =>
    subst length
    exact ⟨.nil, rfl⟩
  | cons first expressions ih =>
    subst length
    obtain ⟨others, same⟩ := ih rfl
    exact ⟨.cons first others, by rw [toList, same]⟩

theorem preorder_eq_flatMap {n : Nat} (operands : Operands n) :
    operands.preorder = operands.toList.flatMap Expression.preorder := by
  induction n with
  | zero => cases operands; simp [preorder, toList]
  | succ n ih =>
    cases operands with
    | cons first others => rw [preorder, toList, List.flatMap_cons, ih]

theorem toArray_values_cons {n : Nat} (first : Expression) (others : Operands n) :
    (cons first others).values.toArray = #[first.value] ++ others.values.toArray := by
  simp [values]

theorem toList_values {n : Nat} (operands : Operands n) :
    operands.values.toList = operands.toList.map Expression.value := by
  induction n with
  | zero => cases operands; simp [values, toList]
  | succ n ih =>
    cases operands with
    | cons first others =>
      rw [Vector.toList, toArray_values_cons, Array.toList_append, ← Vector.toList, ih]
      rfl

end Operands

theorem Expression.preorder_ne_nil (expression : Expression) : expression.preorder ≠ [] := by
  cases expression <;> simp [Expression.preorder]

theorem Expression.length_preorder_ne_zero (expression : Expression) :
    expression.preorder.length ≠ 0 :=
  mt List.length_eq_zero_iff.1 expression.preorder_ne_nil

end Polish
