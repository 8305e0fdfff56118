import Polish.Operator
import Std.Data.TreeMap

/-! # Tables of operators

A table holds at most one operator for each symbol; a later operator takes the place of an earlier
one.  The symbols are kept in order, which for text is the order of its code points and so that of
its bytes.
-/

namespace Polish

structure OperatorTable where
  bySymbol : Std.TreeMap String Operator
  /-- Every operator is kept under its own symbol. -/
  keyed : ∀ (symbol : String) (op : Operator), bySymbol[symbol]? = some op → op.symbol = symbol

namespace OperatorTable

def empty : OperatorTable where
  bySymbol := ∅
  keyed := by simp

/-- The table with `op` in place of any operator of the same symbol. -/
def insert (table : OperatorTable) (op : Operator) : OperatorTable where
  bySymbol := table.bySymbol.insert op.symbol op
  keyed := by
    intro symbol other found
    rw [Std.TreeMap.getElem?_insert] at found
    split at found
    · next same =>
      cases found
      simpa using same
    · exact table.keyed symbol other found

def insertMany (table : OperatorTable) (ops : List Operator) : OperatorTable :=
  ops.foldl insert table

def ofList (ops : List Operator) : OperatorTable :=
  empty.insertMany ops

def find? (table : OperatorTable) (symbol : String) : Option Operator :=
  table.bySymbol[symbol]?

def size (table : OperatorTable) : Nat :=
  table.bySymbol.size

def isEmpty (table : OperatorTable) : Bool :=
  table.bySymbol.isEmpty

def symbols (table : OperatorTable) : List String :=
  table.bySymbol.keys

theorem symbol_of_find? {table : OperatorTable} {symbol : String} {op : Operator}
    (h : table.find? symbol = some op) : op.symbol = symbol :=
  table.keyed symbol op h

theorem find?_empty (symbol : String) : empty.find? symbol = none := by
  simp [find?, empty]

theorem find?_insert (table : OperatorTable) (op : Operator) (symbol : String) :
    (table.insert op).find? symbol = if op.symbol = symbol then some op else table.find? symbol := by
  simp [find?, insert, Std.TreeMap.getElem?_insert]

theorem insertMany_append (table : OperatorTable) (first second : List Operator) :
    table.insertMany (first ++ second) = (table.insertMany first).insertMany second := by
  simp [insertMany]

end OperatorTable

def basicTable : OperatorTable :=
  .ofList basicOperators

def extendedTable : OperatorTable :=
  .ofList extendedOperators

end Polish
