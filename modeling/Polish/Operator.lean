import Polish.Number.Arithmetic
import Polish.Text.Quoted

/-! # Operators

An operator has a symbol, a fixed number of operands and a function on that many numbers.

* `Operator.apply` is the function on a list of numbers; it refuses a list of another length.
* `basicOperators` are the four operations, `extendedOperators` these and nine more.
-/

namespace Polish

/-- A named operation with a fixed number of operands.  A constant is an operator without any. -/
structure Operator where
  symbol : String
  arity : Nat
  evaluate : Vector Float arity → Float

structure ArityMismatch where
  symbol : String
  expected : Nat
  got : Nat
  deriving DecidableEq, Repr

def ArityMismatch.message (m : ArityMismatch) : String :=
  "operator `" ++ m.symbol ++ "` expects " ++ toString m.expected ++ " operands, got "
    ++ toString m.got

namespace Operator

def constant (symbol : String) (value : Float) : Operator :=
  ⟨symbol, 0, fun _ => value⟩

def unary (symbol : String) (f : Float → Float) : Operator :=
  ⟨symbol, 1, fun xs => f xs[0]⟩

def binary (symbol : String) (f : Float → Float → Float) : Operator :=
  ⟨symbol, 2, fun xs => f xs[0] xs[1]⟩

def ofList (symbol : String) (arity : Nat) (f : List Float → Float) : Operator :=
  ⟨symbol, arity, fun xs => f xs.toList⟩

def apply (op : Operator) (operands : Array Float) : Except ArityMismatch Float :=
  if h : operands.size = op.arity then .ok (op.evaluate ⟨operands, h⟩)
  else .error ⟨op.symbol, op.arity, operands.size⟩

theorem apply_eq_ok_iff {op : Operator} {operands : Array Float} {value : Float} :
    op.apply operands = .ok value ↔
      ∃ h : operands.size = op.arity, op.evaluate ⟨operands, h⟩ = value := by
  rw [apply]
  split <;> simp_all

def signature (op : Operator) : String :=
  op.symbol ++ "/" ++ toString op.arity

/-- An operator as a record.  Its function has no text, and dots stand for it. -/
def inspect (op : Operator) : String :=
  "Operator \x7b symbol: " ++ Text.quote op.symbol ++ ", arity: " ++ toString op.arity ++ ", .. \x7d"

end Operator

def basicOperators : List Operator :=
  [ .binary "+" (· + ·), .binary "-" (· - ·), .binary "*" (· * ·), .binary "/" (· / ·) ]

def extendedOperators : List Operator :=
  basicOperators ++
    [ .binary "^" Float.pow, .binary "%" Number.remainder,
      .binary "min" Number.lesser, .binary "max" Number.greater,
      .unary "neg" Float.neg, .unary "abs" Float.abs, .unary "sqrt" Float.sqrt,
      .constant "pi" Number.circleConstant, .constant "e" Number.eulerNumber ]

end Polish
