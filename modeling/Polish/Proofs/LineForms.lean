import Polish.Proofs.Lexing
import Polish.Proofs.Readability

/-! # The forms of a line

Where every line is to be one expression, a line is one, or it is blank and the input ends with it, or
something is wrong with it.  All this is said of the pieces of the line.

* `Spells`: the pieces are the nodes of a tree.  `Opens`: they are nodes, and more of them are needed.
* `Fault` lists what can be wrong with a line, and the diagnostics that say so.
* `spells_or_vacant_or_fault`: there is no other form.
-/

namespace Polish

/-- What comes behind the pieces of a line, when a line without a line feed is the last one. -/
def terminatorOf (line : List Char) : Terminator :=
  if line.getLast? = some '\n' then .endOfLine else .endOfInput

/-- A line of blanks at the end of the input, without a line feed. -/
def Vacant (line : List Char) : Prop :=
  (∀ c ∈ line, Text.isBlank c = true) ∧ terminatorOf line = .endOfInput

theorem terminatorOf_of_not_mem {cs : List Char} (single : '\n' ∉ cs) : terminatorOf cs = .endOfInput :=
  if_neg fun last => single (List.mem_of_getLast? last)

theorem pieces_eq_nil_iff {line : List Char} :
    pieces line = [] ↔ ∀ c ∈ line, Text.isBlank c = true := by
  constructor
  · intro none
    have kept := flatMap_chars_pieces line
    rw [none, List.flatMap_nil] at kept
    simpa using List.filter_eq_nil_iff.1 kept.symm
  · intro blank
    refine List.eq_nil_iff_forall_not_mem.2 fun p member => ?_
    obtain ⟨before, after, rfl, _, fits⟩ := mem_pieces_iff.1 member
    obtain ⟨c, chars, first, solid⟩ := fits.exists_cons
    have inside : c ∈ p.chars := by rw [Piece.chars, first]; exact List.mem_cons_self
    rw [blank c (by simp [inside])] at solid
    contradiction

namespace OperatorTable

variable {table : OperatorTable} {ps : List Piece}

/-- The node that a piece of a line stands for. -/
def nodeOf? (table : OperatorTable) (p : Piece) : Option Head :=
  match p.lexeme with
  | .stray _ => none
  | .word chars =>
    match Number.read? chars with
    | some v => some (.number v)
    | none => (table.find? (String.ofList chars)).map .operator

theorem node?_item (table : OperatorTable) (line : List Char) (n : Nat) (p : Piece) :
    table.node? (p.item line n) = table.nodeOf? p := by
  obtain ⟨start, chars | c⟩ := p
  · simp only [Piece.item, nodeOf?, node?, head?, Token.ofWord]
    cases Number.read? chars <;> rfl
  · rfl

theorem kind_ofWord_of_nodeOf? {p : Piece} {chars : List Char} (word : p.lexeme = .word chars)
    (obstacle : table.nodeOf? p = none) (place : Place) : (Token.ofWord chars place).kind = .word := by
  rw [nodeOf?, word] at obstacle
  rw [Token.ofWord]
  cases numeral : Number.read? chars with
  | none => rfl
  | some v => simp [numeral] at obstacle

/-- The pieces are the nodes of the tree. -/
def Spells (table : OperatorTable) (ps : List Piece) (tree : Expression) : Prop :=
  ps.map table.nodeOf? = tree.preorder.map some

theorem Spells.ne_nil {table : OperatorTable} {ps : List Piece} {tree : Expression}
    (spells : table.Spells ps tree) : ps ≠ [] := by
  rintro rfl
  exact tree.preorder_ne_nil (List.map_eq_nil_iff.1 spells.symm)

/-- The pieces are the given nodes, and behind none of them an expression is complete. -/
structure Opens (table : OperatorTable) (ps : List Piece) (nodes : List Head) : Prop where
  nodes_eq : ps.map table.nodeOf? = nodes.map some
  waits : ∀ k ≤ nodes.length, missing 1 (nodes.take k) ≠ 0

theorem opens_nil : table.Opens [] [] :=
  ⟨rfl, fun k _ => by rw [List.take_nil, missing_nil]; decide⟩

/-- One more node goes on with what the pieces have opened, or completes it. -/
theorem Opens.append {nodes : List Head} (opens : table.Opens ps nodes) {p : Piece} {head : Head}
    (node : table.nodeOf? p = some head) :
    table.Opens (ps ++ [p]) (nodes ++ [head]) ∨ ∃ tree, table.Spells (ps ++ [p]) tree := by
  have same : (ps ++ [p]).map table.nodeOf? = (nodes ++ [head]).map some := by
    rw [List.map_append, List.map_append, opens.nodes_eq, List.map_singleton, List.map_singleton, node]
  have waits : ∀ k < (nodes ++ [head]).length, missing 1 ((nodes ++ [head]).take k) ≠ 0 := by
    intro k less
    have le : k ≤ nodes.length := by simpa [Nat.lt_succ_iff] using less
    rw [List.take_append_of_le_length le]
    exact opens.waits k le
  by_cases complete : missing 1 (nodes ++ [head]) = 0
  · obtain ⟨trees, one, forest_eq⟩ := exists_forest (m := 1) complete waits
    obtain ⟨tree, rfl⟩ := List.length_eq_one_iff.1 one
    rw [forest_cons, forest_nil, List.append_nil] at forest_eq
    exact .inr ⟨tree, by rw [Spells, forest_eq, same]⟩
  · refine .inl ⟨same, fun k le => ?_⟩
    obtain less | rfl := Nat.lt_or_eq_of_le le
    · exact waits k less
    · rwa [List.take_length]

/-- Pieces are nodes of an expression that goes on, or the first of them are one expression, or one
    that is no node comes before that. -/
theorem opens_or_spells_or_stops (table : OperatorTable) (ps : List Piece) :
    (∃ nodes, table.Opens ps nodes) ∨
      (∃ first later tree, ps = first ++ later ∧ table.Spells first tree) ∨
      ∃ first p later nodes, ps = first ++ p :: later ∧ table.Opens first nodes ∧
        table.nodeOf? p = none := by
  induction ps using List.reverseRecOn with
  | nil => exact .inl ⟨[], opens_nil⟩
  | append_singleton ps p ih =>
    obtain ⟨nodes, opens⟩ | ⟨first, later, tree, rfl, spells⟩ |
      ⟨first, q, later, nodes, rfl, opens, obstacle⟩ := ih
    · cases node : table.nodeOf? p with
      | none => exact .inr (.inr ⟨ps, p, [], nodes, rfl, opens, node⟩)
      | some head =>
        obtain goesOn | ⟨tree, spells⟩ := opens.append node
        · exact .inl ⟨_, goesOn⟩
        · exact .inr (.inl ⟨_, [], tree, (List.append_nil _).symm, spells⟩)
    -- what was found among the pieces before the last one stays
    · exact .inr (.inl ⟨first, later ++ [p], tree, List.append_assoc _ _ _, spells⟩)
    · exact .inr (.inr ⟨first, q, later ++ [p], nodes, by simp, opens, obstacle⟩)

theorem Opens.exists_innermost {nodes : List Head} (opens : table.Opens ps nodes) (some : ps ≠ []) :
    ∃ op found, Innermost nodes op found := by
  obtain ⟨trees, frames, few, rfl⟩ := exists_frames (m := 1) opens.waits
  obtain rfl := List.length_eq_zero_iff.1 (Nat.lt_one_iff.1 few)
  obtain rfl | ⟨outer, frame, rfl⟩ := List.eq_nil_or_concat' frames
  · exact absurd (List.map_eq_nil_iff.1 opens.nodes_eq) some
  · exact ⟨_, _, innermost_of_frames outer frame⟩

/-- The line with the number `n` is not one expression, and the diagnostic says why. -/
inductive Fault (table : OperatorTable) (n : Nat) (line : List Char) : Diagnostic → Prop where
  | blank (blank : ∀ c ∈ line, Text.isBlank c = true) (ends : terminatorOf line = .endOfLine) :
      Fault table n line (.located (.missingExpression .endOfLine)
        (endingOf .endOfLine line n).place (String.ofList line))
  | second {first later : List Piece} {p : Piece} {chars : List Char} {tree : Expression}
      (split : pieces line = first ++ p :: later) (spells : table.Spells first tree)
      (word : p.lexeme = .word chars) :
      Fault table n line (.located (.secondExpression (String.ofList chars))
        ⟨n, p.start, p.stop⟩ (String.ofList line))
  | stray {first later : List Piece} {p : Piece} {c : Char}
      (split : pieces line = first ++ p :: later)
      (before : (∃ tree, table.Spells first tree) ∨ ∃ nodes, table.Opens first nodes)
      (stray : p.lexeme = .stray c) :
      Fault table n line (.located (.strayCharacter c) ⟨n, p.start, p.stop⟩ (String.ofList line))
  | unknown {first later : List Piece} {p : Piece} {chars : List Char} {nodes : List Head}
      (split : pieces line = first ++ p :: later) (opens : table.Opens first nodes)
      (word : p.lexeme = .word chars) (obstacle : table.nodeOf? p = none) :
      Fault table n line (.located (.unknownOperator (String.ofList chars))
        ⟨n, p.start, p.stop⟩ (String.ofList line))
  | unfinished {nodes : List Head} {op : Operator} {found : Nat}
      (opens : table.Opens (pieces line) nodes) (innermost : Innermost nodes op found) :
      Fault table n line (.located (.missingOperand op.symbol op.arity found (terminatorOf line))
        (endingOf (terminatorOf line) line n).place (String.ofList line))

theorem Opens.ne_nil {nodes : List Head} (opens : table.Opens ps nodes) {op : Operator} {found : Nat}
    (innermost : Innermost nodes op found) : ps ≠ [] := by
  rintro rfl
  exact innermost.ne_nil (List.map_eq_nil_iff.1 opens.nodes_eq.symm)

theorem Fault.not_vacant {n : Nat} {line : List Char} {d : Diagnostic} (fault : table.Fault n line d) :
    ¬ Vacant line := by
  rintro ⟨blank, open_⟩
  have none := pieces_eq_nil_iff.2 blank
  cases fault with
  | blank _ ends =>
    rw [open_] at ends
    cases ends
  | second split => simp [none] at split
  | stray split => simp [none] at split
  | unknown split => simp [none] at split
  | unfinished opens innermost => exact opens.ne_nil innermost none

theorem spells_or_vacant_or_fault (table : OperatorTable) (n : Nat) (line : List Char) :
    (∃ tree, table.Spells (pieces line) tree) ∨ Vacant line ∨ ∃ d, table.Fault n line d := by
  obtain ⟨nodes, opens⟩ | ⟨first, later, tree, split, spells⟩ |
    ⟨first, p, later, nodes, split, opens, obstacle⟩ := table.opens_or_spells_or_stops (pieces line)
  · by_cases none : pieces line = []
    · have blank := pieces_eq_nil_iff.1 none
      cases ends : terminatorOf line with
      | endOfLine => exact .inr (.inr ⟨_, .blank blank ends⟩)
      | endOfInput => exact .inr (.inl ⟨blank, ends⟩)
    · obtain ⟨op, found, innermost⟩ := opens.exists_innermost none
      exact .inr (.inr ⟨_, .unfinished opens innermost⟩)
  · cases later with
    | nil =>
      rw [List.append_nil] at split
      exact .inl ⟨tree, split ▸ spells⟩
    | cons p later =>
      cases lexeme : p.lexeme with
      | word chars => exact .inr (.inr ⟨_, .second split spells lexeme⟩)
      | stray c => exact .inr (.inr ⟨_, .stray split (.inl ⟨tree, spells⟩) lexeme⟩)
  · cases lexeme : p.lexeme with
    | word chars => exact .inr (.inr ⟨_, .unknown split opens lexeme obstacle⟩)
    | stray c => exact .inr (.inr ⟨_, .stray split (.inr ⟨nodes, opens⟩) lexeme⟩)

end OperatorTable

end Polish
