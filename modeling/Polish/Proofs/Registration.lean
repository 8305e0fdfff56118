import Mathlib.Data.List.Sort
import Polish.Proofs.Agreement
import Polish.Proofs.Reports

/-! # The last registration wins

A table is filled by one registration after another, of single operators or of many.  Of all the
operators that were registered under a symbol it holds the last one, and nothing else about the
registrations makes a difference.

* `encode_lt_encode`: the order of code points is the order of bytes.
* `lastFor` is the last operator with a symbol, and `find?_insertMany` says that it is what is found.
* `fill_eq_ofList`: however a table is filled, it is the table of all the operators in their order.
* `same_of_find?`: tables that find the same operators are the same to whoever uses them.
* `last_registration_wins` puts this together.
-/

namespace Polish

/-! ## The order of bytes -/

namespace Text

/-- Where the bytes first differ, those of the first list are smaller; and there they both go on. -/
def Below : List UInt8 → List UInt8 → Prop
  | a :: x, b :: y => a < b ∨ a = b ∧ Below x y
  | _, _ => False

theorem Below.append_lt {x y : List UInt8} (below : Below x y) (rest rest' : List UInt8) :
    x ++ rest < y ++ rest' := by
  induction x generalizing y with
  | nil => cases below
  | cons a x ih =>
    cases y with
    | nil => cases below
    | cons b y =>
      rw [List.cons_append, List.cons_append, List.cons_lt_cons_iff]
      exact below.imp id fun ⟨same, others⟩ => ⟨same, ih others⟩

/-- Of two numbers with four digits, the first digits that differ decide. -/
theorem below_of_four_digits {m n : Nat} (less : m < n) (bound : n < 0x110000) :
    Below [UInt8.ofNat (m / 262144 % 8 + 240), UInt8.ofNat (m / 4096 % 64 + 128),
        UInt8.ofNat (m / 64 % 64 + 128), UInt8.ofNat (m % 64 + 128)]
      [UInt8.ofNat (n / 262144 % 8 + 240), UInt8.ofNat (n / 4096 % 64 + 128),
        UInt8.ofNat (n / 64 % 64 + 128), UInt8.ofNat (n % 64 + 128)] := by
  have digits (k : Nat) : k = k / 262144 * 262144 + k / 4096 % 64 * 4096 + k / 64 % 64 * 64 + k % 64 := by
    omega
  have leading (k : Nat) (fits : k < 0x110000) : k / 262144 < 8 := by omega
  have other (k : Nat) : k / 4096 % 64 < 64 ∧ k / 64 % 64 < 64 ∧ k % 64 < 64 := by omega
  have first := leading m (less.trans bound)
  have first' := leading n bound
  have others := other m
  have others' := other n
  rw [digits m, digits n] at less
  simp only [Below, UInt8.lt_iff_toNat_lt, ← UInt8.toNat_inj, UInt8.toNat_ofNat']
  generalize m / 262144 = a, m / 4096 % 64 = b, m / 64 % 64 = c, m % 64 = d at *
  generalize n / 262144 = a', n / 4096 % 64 = b', n / 64 % 64 = c', n % 64 = d' at *
  omega

/-- The bytes of a character are the digits of its code point, behind the first of which their number
    is told as well. -/
theorem below_utf8EncodeChar {c d : Char} (less : c < d) :
    Below (String.utf8EncodeChar c) (String.utf8EncodeChar d) := by
  have less : c.val.toNat < d.val.toNat := less
  have bound : d.val.toNat < 0x110000 := d.valid.elim (fun low => low.trans (by decide)) And.right
  simp only [String.utf8EncodeChar]
  generalize c.val.toNat = m at *
  generalize d.val.toNat = n at *
  by_cases wide : m ≤ 65535
  · split_ifs <;>
      simp only [Below, UInt8.lt_iff_toNat_lt, ← UInt8.toNat_inj, UInt8.toNat_ofNat'] <;> omega
  · rw [if_neg (by omega), if_neg (by omega), if_neg wide, if_neg (by omega), if_neg (by omega),
      if_neg (by omega)]
    exact below_of_four_digits less bound

theorem encode_lt_encode {cs ds : List Char} (less : cs < ds) : encode cs < encode ds := by
  rw [← List.lex_lt] at less
  induction less with
  | @nil d ds =>
    have some : encode (d :: ds) ≠ [] :=
      List.append_ne_nil_of_left_ne_nil String.utf8EncodeChar_ne_nil _
    obtain ⟨b, bytes, first⟩ := List.exists_cons_of_ne_nil some
    rw [first]
    exact List.nil_lt_cons b bytes
  | rel less => exact (below_utf8EncodeChar less).append_lt _ _
  | cons _ ih => exact List.append_left_lt ih

end Text

/-! ## What a table holds -/

/-- The last of the operators with the symbol. -/
def lastFor (ops : List Operator) (symbol : String) : Option Operator :=
  (ops.filter (·.symbol = symbol)).getLast?

variable {ops ops' : List Operator} {symbol : String} {op : Operator}

theorem lastFor_append (first second : List Operator) (symbol : String) :
    lastFor (first ++ second) symbol = (lastFor second symbol).or (lastFor first symbol) := by
  rw [lastFor, List.filter_append, List.getLast?_append, ← lastFor, ← lastFor]

theorem lastFor_singleton (op : Operator) (symbol : String) :
    lastFor [op] symbol = if op.symbol = symbol then some op else none := by
  rw [lastFor, List.filter_singleton]
  by_cases same : op.symbol = symbol <;> simp [same]

theorem lastFor_cons (op : Operator) (ops : List Operator) (symbol : String) :
    lastFor (op :: ops) symbol = (lastFor ops symbol).or (if op.symbol = symbol then some op else none) := by
  rw [← List.singleton_append, lastFor_append, lastFor_singleton]

theorem isSome_lastFor_iff : (lastFor ops symbol).isSome = true ↔ ∃ op ∈ ops, op.symbol = symbol := by
  simp [lastFor]

namespace OperatorTable

variable {table other : OperatorTable}

theorem find?_insertMany (table : OperatorTable) (ops : List Operator) (symbol : String) :
    (table.insertMany ops).find? symbol = (lastFor ops symbol).or (table.find? symbol) := by
  induction ops generalizing table with
  | nil => rfl
  | cons op ops ih =>
    have step : table.insertMany (op :: ops) = (table.insert op).insertMany ops := rfl
    rw [step, ih, find?_insert, lastFor_cons, Option.or_assoc]
    split <;> rfl

theorem find?_ofList (ops : List Operator) (symbol : String) :
    (ofList ops).find? symbol = lastFor ops symbol := by
  rw [ofList, find?_insertMany, find?_empty, Option.or_none]

theorem mem_symbols_iff : symbol ∈ table.symbols ↔ (table.find? symbol).isSome = true := by
  rw [symbols, Std.TreeMap.mem_keys, Std.TreeMap.mem_iff_isSome_getElem?, find?]

theorem pairwise_symbols (table : OperatorTable) : table.symbols.Pairwise (· < ·) :=
  (Std.TreeMap.ordered_keys (t := table.bySymbol)).imp fun less => compareOfLessAndEq_eq_lt.1 less

theorem nodup_symbols (table : OperatorTable) : table.symbols.Nodup :=
  table.pairwise_symbols.imp fun less => by
    rintro rfl
    exact String.lt_irrefl _ less

theorem length_symbols (table : OperatorTable) : table.symbols.length = table.size :=
  Std.TreeMap.length_keys

theorem isEmpty_iff : table.isEmpty = true ↔ table.symbols = [] := by
  rw [← List.isEmpty_iff, symbols, Std.TreeMap.isEmpty_keys, isEmpty]

/-- The symbols in their order are told by what is found. -/
theorem symbols_congr (same : ∀ symbol, other.find? symbol = table.find? symbol) :
    other.symbols = table.symbols := by
  have members (symbol : String) : symbol ∈ other.symbols ↔ symbol ∈ table.symbols := by
    rw [mem_symbols_iff, mem_symbols_iff, same]
  have perm := (List.perm_ext_iff_of_nodup other.nodup_symbols table.nodup_symbols).2 members
  refine perm.eq_of_pairwise (fun _ _ _ _ less more => ?_) other.pairwise_symbols table.pairwise_symbols
  exact absurd more (String.lt_asymm less)

theorem agree_of_find? (same : ∀ symbol, other.find? symbol = table.find? symbol) (s : TokenStream) :
    table.Agree other s := by
  intro k
  simp only [node?, head?, same]

end OperatorTable

/-! ## How a table is filled -/

/-- One operator is registered, or many from the first one to the last. -/
inductive Registration where
  | one (op : Operator)
  | many (ops : List Operator)

namespace Registration

def operators : Registration → List Operator
  | one op => [op]
  | many ops => ops

def apply (table : OperatorTable) : Registration → OperatorTable
  | one op => table.insert op
  | many ops => table.insertMany ops

theorem apply_eq (table : OperatorTable) (step : Registration) :
    step.apply table = table.insertMany step.operators := by
  cases step <;> rfl

end Registration

/-- The table that is made of some operators and then filled step by step. -/
def fill (start : List Operator) (steps : List Registration) : OperatorTable :=
  steps.foldl Registration.apply (.ofList start)

/-- All operators that are registered on the way, in their order. -/
def registered (start : List Operator) (steps : List Registration) : List Operator :=
  start ++ steps.flatMap Registration.operators

theorem fill_eq_ofList (start : List Operator) (steps : List Registration) :
    fill start steps = .ofList (registered start steps) := by
  induction steps generalizing start with
  | nil => rw [registered, List.flatMap_nil, List.append_nil, fill, List.foldl_nil]
  | cons step steps ih =>
    have first : step.apply (.ofList start) = .ofList (start ++ step.operators) := by
      rw [Registration.apply_eq, OperatorTable.ofList, OperatorTable.ofList,
        OperatorTable.insertMany_append]
    have split : registered start (step :: steps) = registered (start ++ step.operators) steps := by
      rw [registered, registered, List.flatMap_cons, List.append_assoc]
    rw [split, ← ih, fill, fill, List.foldl_cons, first]

/-! ## What makes no difference -/

theorem lastFor_swap {first second : Operator} (differ : first.symbol ≠ second.symbol)
    (before behind : List Operator) (symbol : String) :
    lastFor (before ++ second :: first :: behind) symbol =
      lastFor (before ++ first :: second :: behind) symbol := by
  have pair : lastFor [second, first] symbol = lastFor [first, second] symbol := by
    rw [lastFor_cons second [first], lastFor_cons first [second], lastFor_singleton, lastFor_singleton]
    by_cases same : first.symbol = symbol
    · have other : second.symbol ≠ symbol := fun same' => differ (same.trans same'.symm)
      rw [if_neg other, Option.or_none, Option.none_or]
    · rw [if_neg same, Option.or_none, Option.none_or]
  have split (a b : Operator) : before ++ a :: b :: behind = before ++ ([a, b] ++ behind) := rfl
  rw [split, split, lastFor_append, lastFor_append, lastFor_append before, lastFor_append, pair]

theorem lastFor_drop {op : Operator} {behind : List Operator} (replaced : ∃ later ∈ behind, later.symbol = op.symbol)
    (before : List Operator) (symbol : String) :
    lastFor (before ++ behind) symbol = lastFor (before ++ op :: behind) symbol := by
  rw [lastFor_append, lastFor_append, lastFor_cons]
  by_cases same : op.symbol = symbol
  · obtain ⟨last, found⟩ := Option.isSome_iff_exists.1 (isSome_lastFor_iff.2 (same ▸ replaced))
    rw [found, Option.some_or, Option.some_or, Option.some_or]
  · rw [if_neg same, Option.or_none]

/-- Tables that find the same operators are the same to whoever uses them. -/
theorem same_of_find? {table other : OperatorTable}
    (same : ∀ symbol, other.find? symbol = table.find? symbol) :
    other.symbols = table.symbols ∧ other.size = table.size ∧ other.isEmpty = table.isEmpty ∧
      ∀ layout source, (Run.ofSource other layout source).values = (Run.ofSource table layout source).values := by
  have symbols := OperatorTable.symbols_congr same
  refine ⟨symbols, ?_, ?_, fun layout source => ?_⟩
  · rw [← other.length_symbols, symbols, table.length_symbols]
  · rw [Bool.eq_iff_iff, OperatorTable.isEmpty_iff, OperatorTable.isEmpty_iff, symbols]
  · exact OperatorTable.values_of_agree (OperatorTable.agree_of_find? same _)

/-- A table holds what was registered last, whatever way it is filled.
    * Under each symbol it finds the last operator that was registered with it, and none if there was
      none.
    * Its symbols are in the strict order of their bytes and are those that were ever registered; their
      number is its size, and it is empty if there are none.
    * Two ways to fill a table that end in the same operator for each symbol make no difference: the
      tables find the same, have the same symbols, and give the same values, failures and reports for
      every source in either layout.  So do two ways that differ in the order of neighbours with
      different symbols, or in a registration that is replaced later. -/
theorem last_registration_wins (start : List Operator) (steps : List Registration) :
    let table := fill start steps
    let ops := registered start steps
    (∀ symbol, table.find? symbol = lastFor ops symbol) ∧
      table.symbols.Pairwise (fun a b => Text.encode a.toList < Text.encode b.toList) ∧
      (∀ symbol, symbol ∈ table.symbols ↔ ∃ op ∈ ops, op.symbol = symbol) ∧
      table.size = table.symbols.length ∧ (table.isEmpty = true ↔ table.symbols = []) ∧
      ∀ start' steps',
        let table' := fill start' steps'
        let ops' := registered start' steps'
        ((∀ symbol, lastFor ops' symbol = lastFor ops symbol) ∨
          (∃ before first second behind, first.symbol ≠ second.symbol ∧
            ops = before ++ first :: second :: behind ∧ ops' = before ++ second :: first :: behind) ∨
          (∃ before op behind, (∃ later ∈ behind, later.symbol = op.symbol) ∧
            ops = before ++ op :: behind ∧ ops' = before ++ behind)) →
        (∀ symbol, table'.find? symbol = table.find? symbol) ∧ table'.symbols = table.symbols ∧
          table'.size = table.size ∧ table'.isEmpty = table.isEmpty ∧
          ∀ layout source,
            let run := Run.ofSource table layout source
            let run' := Run.ofSource table' layout source
            run'.values = run.values ∧
              ∀ sink, (run'.report sink).result = (run.report sink).result ∧
                (run'.report sink).sink = (run.report sink).sink := by
  intro table ops
  have found (start : List Operator) (steps : List Registration) (symbol : String) :
      (fill start steps).find? symbol = lastFor (registered start steps) symbol := by
    rw [fill_eq_ofList, OperatorTable.find?_ofList]
  refine ⟨found start steps, ?_, fun symbol => ?_, table.length_symbols.symm,
    OperatorTable.isEmpty_iff, fun start' steps' => ?_⟩
  · exact table.pairwise_symbols.imp fun less => Text.encode_lt_encode (String.lt_iff.1 less)
  · rw [OperatorTable.mem_symbols_iff, found, isSome_lastFor_iff]
  · intro table' ops' alike
    have last (symbol : String) : lastFor ops' symbol = lastFor ops symbol := by
      obtain same | ⟨before, first, second, behind, differ, whole, whole'⟩ |
        ⟨before, op, behind, replaced, whole, whole'⟩ := alike
      · exact same symbol
      · rw [whole, whole', lastFor_swap differ]
      · rw [whole, whole', lastFor_drop replaced]
    have same (symbol : String) : table'.find? symbol = table.find? symbol := by
      rw [found, found]
      exact last symbol
    obtain ⟨symbols, size, empty, values⟩ := same_of_find? same
    exact ⟨same, symbols, size, empty, fun layout source =>
      ⟨values layout source, Run.report_congr (values layout source)⟩⟩

/-- An operator that is replaced by one of another arity leaves no trace. -/
theorem replaced_by_another_arity :
    let first := Operator.unary "f" Float.neg
    let second := Operator.binary "f" Float.add
    (fill [first] [.one second]).find? "f" = some second ∧
      ∀ layout source, (Run.ofSource (fill [] [.many [second]]) layout source).values =
        (Run.ofSource (fill [first] [.one second]) layout source).values := by
  intro first second
  obtain ⟨found, _, _, _, _, alike⟩ := last_registration_wins [first] [.one second]
  obtain ⟨_, _, _, _, same⟩ := alike [] [.many [second]]
    (.inr (.inr ⟨[], first, [second], ⟨second, List.mem_cons_self, rfl⟩, rfl, rfl⟩))
  refine ⟨(found "f").trans ?_, fun layout source => (same layout source).1⟩
  rw [registered, lastFor_append]
  rfl

end Polish
