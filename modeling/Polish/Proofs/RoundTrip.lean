import Polish.Proofs.LayoutRefinement
import Polish.Proofs.LineByLine
import Polish.Proofs.Numerals
import Polish.Proofs.Spacing

/-! # Expressions that are written down and evaluated

The text of an expression is the words of its nodes with blanks between them.  To evaluate the text of
some trees gives the values of these trees, in both layouts.

* `Head.word` is what a node is written as, and `nodeOf?_word` says that it is read as that node.
* `values_of_forest` and `values_of_spelled` go from tree to tree, along a text and along its lines;
  `values_of_line` is about a single line, in both layouts.
* `values_of_printed` says it for a whole source.
-/

namespace Polish

/-! ## The words of a tree -/

def Head.word : Head → List Char
  | .number v => Number.write v
  | .operator op => op.symbol.toList

def Expression.words (tree : Expression) : List (List Char) :=
  tree.preorder.map Head.word

/-- The word of the node is read as the node: a number is finite, and an operator is one of the table
    and has a word for its symbol that is no numeral. -/
def Head.Printable (table : OperatorTable) : Head → Prop
  | .number v => v.isFinite = true
  | .operator op => table.find? op.symbol = some op ∧ op.symbol.toList ≠ [] ∧
      (∀ c ∈ op.symbol.toList, Text.isVisible c = true) ∧ Number.read? op.symbol.toList = none

def Expression.Printable (table : OperatorTable) (tree : Expression) : Prop :=
  ∀ head ∈ tree.preorder, head.Printable table

variable {table : OperatorTable} {head : Head} {nodes : List Head} {trees : List Expression}

theorem Head.Printable.solid (printable : head.Printable table) :
    head.word ≠ [] ∧ ∀ c ∈ head.word, Text.isVisible c = true := by
  cases head with
  | number v =>
    exact ⟨Number.write_ne_nil printable, fun _ => Number.isVisible_of_mem_write printable⟩
  | operator op => exact ⟨printable.2.1, printable.2.2.1⟩

theorem nodeOf?_word (printable : head.Printable table) (start : Nat) :
    table.nodeOf? ⟨start, .word head.word⟩ = some head := by
  cases head with
  | number v => simp only [OperatorTable.nodeOf?, Head.word, Number.read?_write printable]
  | operator op =>
    obtain ⟨registered, -, -, word⟩ := printable
    simp only [OperatorTable.nodeOf?, Head.word, word, String.ofList_toList, registered, Option.map_some]

/-! ## The nodes of a text -/

theorem map_nodeOf?_pieces (table : OperatorTable) (cs : List Char) :
    (pieces cs).map table.nodeOf? = (lexemes cs).map fun l => table.nodeOf? ⟨0, l⟩ := by
  rw [lexemes, List.map_map]
  rfl

/-- Where the words of nodes are the pieces of a text, the pieces are read as these nodes. -/
theorem map_nodeOf?_of_spaced (printable : ∀ head ∈ nodes, head.Printable table) {cs : List Char}
    (spaced : Spaced (nodes.map Head.word) cs) :
    (lexemes cs).map (fun l => table.nodeOf? ⟨0, l⟩) = nodes.map some := by
  have solid (word : List Char) (member : word ∈ nodes.map Head.word) :
      word ≠ [] ∧ ∀ c ∈ word, Text.isVisible c = true := by
    obtain ⟨head, node, rfl⟩ := List.mem_map.1 member
    exact (printable head node).solid
  rw [lexemes_of_spaced spaced solid, List.map_map, List.map_map]
  exact List.map_congr_left fun head node => nodeOf?_word (printable head node) 0

theorem spells_of_spaced {tree : Expression} (printable : tree.Printable table) {line : List Char}
    (spaced : Spaced tree.words line) : table.Spells (pieces line) tree := by
  rw [OperatorTable.Spells, map_nodeOf?_pieces]
  exact map_nodeOf?_of_spaced printable spaced

theorem spelled_of_spaced (printable : ∀ tree ∈ trees, tree.Printable table) {lines : List (List Char)}
    (spaced : List.Forall₂ (fun line tree => Spaced tree.words line) lines trees) :
    List.Forall₂ (fun line tree => table.Spells (pieces line) tree) lines trees := by
  induction spaced with
  | nil => exact .nil
  | cons first _ ih =>
    exact .cons (spells_of_spaced (printable _ List.mem_cons_self) first)
      (ih fun tree member => printable tree (List.mem_cons_of_mem _ member))

/-- Where lines do not count, the nodes of a text are those of its pieces, wherever the lines end. -/
theorem map_node?_itemsOfLines (table : OperatorTable) (n : Nat) (lines : List (List Char)) :
    (itemsOfLines .freeform n lines).map table.node? =
      (lines.flatMap lexemes).map fun l => table.nodeOf? ⟨0, l⟩ := by
  induction lines generalizing n with
  | nil => rfl
  | cons line lines ih =>
    have nodes : (pieces line).map (fun p => table.node? (p.item line n)) =
        (pieces line).map table.nodeOf? :=
      List.map_congr_left fun p _ => table.node?_item line n p
    rw [itemsOfLines, itemsOfLine, if_neg (by rintro ⟨⟨⟩, -⟩), List.append_nil, List.map_append, ih,
      List.map_map, List.flatMap_cons, List.map_append, ← map_nodeOf?_pieces, ← nodes]
    rfl

/-! ## Whole runs -/

/-- One tree after the other: the run gives the value of each, and then it is at its end. -/
theorem values_of_forest {s : TokenStream} (layout : s.layout = .freeform)
    (reads : table.Reads s (forest trees)) (atEnd : (s.after (forest trees).length).AtEnd) :
    (⟨table, s, false⟩ : Run).values = trees.map fun tree => .ok tree.value := by
  induction trees generalizing s with
  | nil => exact Run.values_of_end (OperatorTable.nextValue_of_atEnd atEnd)
  | cons tree trees ih =>
    rw [forest_cons] at reads atEnd
    rw [List.length_append, TokenStream.after_add] at atEnd
    obtain ⟨first, others⟩ := OperatorTable.reads_append.1 reads
    have layout' := (TokenStream.layout_after s tree.preorder.length).trans layout
    have value : table.nextValue s = (.ok (some tree.value), s.after tree.preorder.length) := by
      rw [OperatorTable.nextValue_of_reads first, TokenStream.closeLine_of_freeform layout']
    rw [Run.values_of_value value, ih layout' others atEnd, List.map_cons]

/-- One tree on each line. -/
theorem values_of_spelled {s : TokenStream} {n : Nat} {lines : List (List Char)}
    (awaits : s.Awaits n lines)
    (closed : ∀ before line later, lines = before ++ line :: later → later ≠ [] →
      terminatorOf line = .endOfLine)
    (spelled : List.Forall₂ (fun line tree => table.Spells (pieces line) tree) lines trees) :
    (⟨table, s, false⟩ : Run).values = trees.map fun tree => .ok tree.value := by
  induction spelled generalizing s n with
  | nil => exact Run.values_of_end (OperatorTable.nextValue_of_atEnd awaits.atEnd)
  | @cons line tree later trees spells _ ih =>
    obtain ⟨s', lays, awaits'⟩ := awaits.exists_lays (closed [] line later rfl)
    have others := ih awaits' fun before other later same =>
      closed (line :: before) other later (by rw [same, List.cons_append])
    rw [Run.values_of_value (lays.nextValue_of_spells spells), others, List.map_cons]

/-- The text of one tree that is a single line gives its value, in both layouts. -/
theorem values_of_line {source : Source} {cs : List Char} (holds : source.Holds cs)
    (single : '\n' ∉ cs) {tree : Expression} (spells : table.Spells (pieces cs) tree)
    (layout : Layout) : (Run.ofSource table layout source).values = [.ok tree.value] := by
  have some : cs ≠ [] := by
    rintro rfl
    exact spells.ne_nil (pieces_eq_nil_iff.2 (List.forall_mem_nil _))
  have awaits : (TokenStream.ofSource .linewise source).Awaits 0 (linesBy '\n' cs) :=
    .lines ⟨rfl, rfl⟩ rfl rfl (Source.reads_of_text holds)
  have closed (before : List (List Char)) (line : List Char) (later : List (List Char))
      (split : linesBy '\n' cs = before ++ line :: later) (more : later ≠ []) :
      terminatorOf line = .endOfLine := Source.terminatorOf_of_linesBy holds split more
  rw [linesBy_of_not_mem single some] at awaits closed
  have linewise : (Run.ofSource table .linewise source).values = [.ok tree.value] :=
    values_of_spelled awaits closed (.cons spells .nil)
  cases layout with
  | linewise => exact linewise
  | freeform =>
    -- where line feeds are blanks the run gives the same, as every line is complete
    have freeform := (values_of_inStep table (s := .ofSource .linewise source)
      (f := .ofSource .freeform source) ⟨rfl, rfl, rfl⟩).2 fun result member =>
        ⟨_, List.mem_singleton.1 (linewise ▸ member)⟩
    exact freeform.trans linewise

/-- In the text of some trees the nodes of these trees come first, and then the end of the input. -/
theorem reads_of_spaced (printable : ∀ head ∈ nodes, head.Printable table) {source : Source}
    {cs : List Char} (holds : source.Holds cs) (spaced : Spaced (nodes.map Head.word) cs) :
    table.Reads (.ofSource .freeform source) nodes ∧
      ((TokenStream.ofSource .freeform source).after nodes.length).AtEnd := by
  have nodes_eq := map_node?_itemsOfLines table 1 (linesBy '\n' cs)
  rw [flatMap_lexemes_linesBy, map_nodeOf?_of_spaced printable spaced] at nodes_eq
  have length : (itemsOfLines .freeform 1 (linesBy '\n' cs)).length = nodes.length := by
    simpa using congrArg List.length nodes_eq
  have results := TokenStream.results_of_lines (s := .ofSource .freeform source) ⟨rfl, rfl⟩ rfl
    (Source.reads_of_text holds)
  rw [TokenStream.results_succ] at results
  obtain ⟨items, last⟩ := List.append_inj results (TokenStream.length_results _ _)
  have items : (TokenStream.ofSource .freeform source).results _ = _ := items
  have last := List.singleton_inj.1 last
  rw [← length]
  exact ⟨by rw [OperatorTable.Reads, ← length, ← nodes_eq]; exact congrArg _ items, _, last, rfl⟩

/-- To print trees and to evaluate them gives their values.
    * The words of the nodes, with blanks between any two of them, give the values of the trees one
      after the other, wherever the lines end.
    * One tree on each line gives them where lines count, too.
    * What is written for a finite number is read as that number, so that no negative number is taken
      for the operator `-`, and neither of the operators `-` and `+` for a number. -/
theorem values_of_printed (table : OperatorTable) {trees : List Expression}
    (printable : ∀ tree ∈ trees, tree.Printable table) {source : Source} {cs : List Char}
    (holds : source.Holds cs) :
    (Spaced (trees.flatMap Expression.words) cs →
        (Run.ofSource table .freeform source).values = trees.map fun tree => .ok tree.value) ∧
      (List.Forall₂ (fun line tree => Spaced tree.words line) (linesBy '\n' cs) trees →
        (Run.ofSource table .linewise source).values = trees.map fun tree => .ok tree.value) ∧
      ∀ place,
        (∀ v : Float, v.isFinite = true →
          (Token.ofWord (Number.write v) place).kind = .number v) ∧
        (Token.ofWord ['-'] place).kind = .word ∧ (Token.ofWord ['+'] place).kind = .word := by
  refine ⟨fun spaced => ?_, fun spaced => ?_, fun place => ⟨fun v finite => ?_, rfl, rfl⟩⟩
  · have words : trees.flatMap Expression.words = (forest trees).map Head.word := by
      rw [forest, List.map_flatMap]
      rfl
    have printable' (head : Head) (node : head ∈ forest trees) : head.Printable table := by
      obtain ⟨tree, member, node⟩ := List.mem_flatMap.1 node
      exact printable tree member head node
    obtain ⟨reads, atEnd⟩ := reads_of_spaced printable' holds (words ▸ spaced)
    exact values_of_forest rfl reads atEnd
  · have awaits : (TokenStream.ofSource .linewise source).Awaits 0 (linesBy '\n' cs) :=
      .lines ⟨rfl, rfl⟩ rfl rfl (Source.reads_of_text holds)
    exact values_of_spelled awaits (fun _ _ _ => Source.terminatorOf_of_linesBy holds)
      (spelled_of_spaced printable spaced)
  · rw [Token.ofWord, Number.read?_write finite]

/-- A difference with a negative number in it. -/
theorem values_of_printed_difference :
    let minus := Operator.binary "-" (· - ·)
    let first := Float.ofBits 0xBFF0000000000000
    let second := Float.ofBits 0x3FE0000000000000
    let difference := Expression.apply minus (.cons (.number first) (.cons (.number second) .nil))
    let text := "-  -1 0.5\n"
    difference.Printable basicTable ∧ (Source.ofString text).Holds text.toList ∧
      (Run.ofSource basicTable .freeform (.ofString text)).values = [.ok (first - second)] ∧
      (Run.ofSource basicTable .linewise (.ofString text)).values = [.ok (first - second)] := by
  intro minus first second difference text
  have registered : basicTable.find? "-" = some minus := by
    simp [basicTable, OperatorTable.ofList, OperatorTable.insertMany, basicOperators,
      OperatorTable.find?_insert, Operator.binary, minus]
  have word : Number.read? "-".toList = none := by decide +kernel
  have finite : first.isFinite = true ∧ second.isFinite = true := by decide +kernel
  have printable : difference.Printable basicTable := by
    intro head node
    rcases List.mem_cons.1 node with rfl | node
    · exact ⟨registered, by decide, List.all_eq_true.1 (by decide), word⟩
    · rcases List.mem_pair.1 node with rfl | rfl
      · exact finite.1
      · exact finite.2
  have words : difference.words = [['-'], ['-', '1'], ['0', '.', '5']] := by decide +kernel
  have blank (n : Nat) : ∀ c ∈ List.replicate n ' ', Text.isBlank c = true := fun c member => by
    rw [List.eq_of_mem_replicate member]
    decide
  have feed : Spaced [] ['\n'] := .blank (List.all_eq_true.1 (by decide))
  have last : Spaced [['0', '.', '5']] [' ', '0', '.', '5', '\n'] :=
    @Spaced.word _ ['0', '.', '5'] ['\n'] _ (blank 1) feed (fun some => absurd rfl some)
  have spaced : Spaced difference.words ['-', ' ', ' ', '-', '1', ' ', '0', '.', '5', '\n'] := by
    rw [words]
    refine @Spaced.word _ ['-'] _ _ (blank 0) ?_ (fun _ => ⟨' ', rfl, by decide⟩)
    exact @Spaced.word _ ['-', '1'] _ _ (blank 2) last (fun _ => ⟨' ', rfl, by decide⟩)
  have chars : text.toList = ['-', ' ', ' ', '-', '1', ' ', '0', '.', '5', '\n'] := by decide
  have cut : linesBy '\n' text.toList = [['-', ' ', ' ', '-', '1', ' ', '0', '.', '5', '\n']] := by
    decide
  have holds := Source.holds_ofString text
  obtain ⟨freeform, linewise, _⟩ :=
    values_of_printed basicTable (List.forall_mem_singleton.2 printable) holds
  refine ⟨printable, holds, freeform ?_, linewise ?_⟩
  · rwa [List.flatMap_singleton, chars]
  · rw [cut]
    exact .cons spaced .nil

end Polish
