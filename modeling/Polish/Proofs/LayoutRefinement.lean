import Polish.Proofs.Scanning
import Polish.Proofs.Values

/-! # From one layout to the other

Where line feeds are blanks a run goes at least as far as where they end an expression.  The two runs
are kept in step: the stream of the one is the stream of the other made `free`, once the ends of lines
are taken from the latter.

* `next_free`: to make a stream free drops the ends of lines from its items and changes nothing else.
* `InStep` relates the streams of two runs, and `InStep.nextValue` says that a value keeps them in step.
* `linewise_refines_freeform` says what follows for the values of whole runs.
-/

namespace Polish

namespace TokenStream

/-- The same stream where line feeds are blanks. -/
def free (s : TokenStream) : TokenStream :=
  { s with layout := .freeform, owesEnd := false }

def IsLineEnd (item : Except Failure Token) : Prop :=
  ∃ token, item = .ok token ∧ token.kind = .ending .endOfLine

variable {s s' : TokenStream} {result : Except Failure Token × TokenStream}

theorem not_isLineEnd_error {failure : Failure} : ¬ IsLineEnd (.error failure) := by
  rintro ⟨token, same, _⟩
  cases same

theorem not_isLineEnd_ending (s : TokenStream) : ¬ IsLineEnd (.ok (s.ending .endOfInput)) := by
  rintro ⟨token, same, kind⟩
  cases same
  cases kind

theorem not_isLineEnd_answer (s : TokenStream) (place : Place) (l : Lexeme) :
    ¬ IsLineEnd (s.answer place l) := by
  rintro ⟨token, same, kind⟩
  cases l with
  | stray c => cases same
  | word chars =>
    cases same
    exact Token.kind_ofWord_ne_ending chars place .endOfLine kind

theorem not_isLineEnd_item (line : List Char) (n : Nat) (p : Piece) : ¬ IsLineEnd (p.item line n) := by
  rintro ⟨token, same, kind⟩
  obtain ⟨start, chars | c⟩ := p
  · cases same
    exact Token.kind_ofWord_ne_ending chars _ .endOfLine kind
  · cases same

theorem onLine?_free_of_none (nothing : s.onLine? = none) : s.free.onLine? = none :=
  onLine?_eq_none_iff.2 ⟨(onLine?_eq_none_iff.1 nothing).1, rfl⟩

theorem Ready.free (ready : s.Ready) : s.free.Ready := ⟨ready.idle, ready.unfinished⟩

theorem Skips.free (skips : Skips s s') : Skips s.free s'.free := by
  induction skips with
  | none => exact .none _
  | line nothing reads line _ ih => exact .line (onLine?_free_of_none nothing) reads line ih

/-- The end of a line is dropped from a free stream, and any other item is given by it as well. -/
theorem Ready.next_free (ready : s.Ready) :
    (IsLineEnd s.next.1 ∧ s.free.next = s.next.2.free.next) ∨
      (¬ IsLineEnd s.next.1 ∧ s.free.next = (s.next.1, s.next.2.free)) := by
  obtain ⟨s₀, skips, answers⟩ := ready.exists_answers
  rw [ready.free.next_of_skips skips.free]
  have free : s₀.free.Ready := (ready.of_skips skips).free
  generalize s.next = result at answers
  cases answers with
  | failed nothing reads failed =>
    exact .inr ⟨not_isLineEnd_error,
      free.next_of_answers (.failed (onLine?_free_of_none nothing) reads failed)⟩
  | ended nothing reads =>
    exact .inr ⟨not_isLineEnd_ending s₀,
      free.next_of_answers (.ended (onLine?_free_of_none nothing) reads)⟩
  | onLine answered =>
    obtain ⟨item, s₁⟩ := result
    obtain ⟨before, blanks, l, after, found, rfl, rfl⟩ | ⟨nothing, _, rfl, rfl⟩ :=
      onLine?_cases answered
    · have same : Found s₀.free before blanks l after := ⟨found.text_eq, found.offset_eq, found.next?_eq⟩
      refine .inr ⟨not_isLineEnd_answer s₀ _ l, (free.next_of_onLine? same.onLine?_eq).trans ?_⟩
      cases l <;> rfl
    -- behind the end of the line the free stream looks for the same item as in front of it
    · exact .inl ⟨⟨_, rfl, rfl⟩, rfl⟩

theorem next_free (idle : s.lookahead = none) :
    (IsLineEnd s.next.1 ∧ s.free.next = s.next.2.free.next) ∨
      (¬ IsLineEnd s.next.1 ∧ s.free.next = (s.next.1, s.next.2.free)) := by
  by_cases finished : s.finished = true
  · rw [next_of_finished idle finished]
    exact .inr ⟨not_isLineEnd_ending s, next_of_finished (s := s.free) idle finished⟩
  · exact Ready.next_free ⟨idle, by simpa using finished⟩

theorem gives_free {n : Nat} (idle : s.lookahead = none)
    (inside : ∀ item ∈ s.results n, ¬ IsLineEnd item) :
    s.free.results n = s.results n ∧ s.free.after n = (s.after n).free := by
  induction n generalizing s with
  | zero => exact ⟨rfl, rfl⟩
  | succ n ih =>
    have first : s.free.next = (s.next.1, s.next.2.free) :=
      ((next_free idle).resolve_left fun ⟨lineEnd, _⟩ => inside _ List.mem_cons_self lineEnd).2
    obtain ⟨results, after⟩ := ih (lookahead_next s) fun item member =>
      inside item (List.mem_cons_of_mem _ member)
    constructor
    · rw [TokenStream.results, first, results, TokenStream.results]
    · rw [TokenStream.after, first, after, TokenStream.after]

end TokenStream

open TokenStream OperatorTable

variable {table : OperatorTable} {s s' f : TokenStream}

theorem not_isLineEnd_of_node? {item : Except Failure Token} (node : (table.node? item).isSome) :
    ¬ IsLineEnd item := by
  rintro ⟨token, rfl, kind⟩
  simp [node?, head?, kind] at node

/-- The streams of two runs, where the line feeds end the expressions of the first: what the second
    gives next is what the first would give if it were free. -/
structure InStep (s f : TokenStream) : Prop where
  layout : s.layout = .linewise
  idle : s.lookahead = none
  next_eq : f.next = s.free.next

theorem InStep.atEnd (inStep : InStep s f) (atEnd : s.AtEnd) : f.AtEnd := by
  obtain ⟨token, item, last⟩ := atEnd
  refine ⟨token, ?_, last⟩
  rw [inStep.next_eq]
  obtain ⟨⟨other, same, kind⟩, _⟩ | ⟨_, same⟩ := next_free inStep.idle
  · rw [item] at same
    cases same
    rw [Token.isLast_iff, kind] at last
    cases last
  · rw [same, item]

theorem InStep.reads (inStep : InStep s f) {tree : Expression} (reads : table.Reads s tree.preorder) :
    table.Reads f tree.preorder ∧
      f.after tree.preorder.length = (s.after tree.preorder.length).free := by
  obtain ⟨results, after⟩ := gives_free inStep.idle fun item member =>
    not_isLineEnd_of_node? (nodes_of_reads reads item member)
  obtain ⟨n, length⟩ : ∃ n, tree.preorder.length = n + 1 :=
    Nat.exists_eq_succ_of_ne_zero tree.length_preorder_ne_zero
  have same : f.results tree.preorder.length = s.results tree.preorder.length := by
    rw [← results, length]
    exact results_congr inStep.next_eq n
  constructor
  · rw [Reads, same]
    exact reads
  · rw [← after, length, TokenStream.after, inStep.next_eq, TokenStream.after]

/-- A value of the first stream is one of the second, and leaves them in step. -/
theorem InStep.nextValue (inStep : InStep s f) {v : Float}
    (value : table.nextValue s = (.ok (some v), s')) :
    ∃ f', table.nextValue f = (.ok (some v), f') ∧ InStep s' f' := by
  obtain ⟨tree, rfl, reads, closed⟩ := exists_tree_of_nextValue value
  obtain ⟨free, after⟩ := inStep.reads reads
  have idle := lookahead_after inStep.idle tree.preorder.length
  have layout := (layout_after s tree.preorder.length).trans inStep.layout
  refine ⟨(s.after tree.preorder.length).free, ?_, ?_⟩
  · rw [nextValue_of_reads free, after, closeLine_of_freeform rfl]
  obtain ⟨token, reached, taken, kind⟩ := exists_ending_of_closeLine layout closed
  have s'_eq : (s.after tree.preorder.length).next.2 = s' := by rw [taken]
  refine ⟨s'_eq ▸ (layout_next _).trans layout, s'_eq ▸ lookahead_next _, ?_⟩
  obtain ⟨_, same⟩ | ⟨other, same⟩ := next_free idle
  · rw [same, s'_eq]
  -- no end of a line, and so the end of the input, which is given again and again
  · rw [taken] at other same
    have last : token.isLast = true := by
      cases reached with
      | endOfLine => exact absurd ⟨token, rfl, kind⟩ other
      | endOfInput => exact Token.isLast_iff.2 kind
    rw [same, next_of_isLast (s := (s.after tree.preorder.length).free) idle same last]

/-! ## Whole runs -/

def delivered (results : List (Except Failure Float)) : List Float :=
  results.filterMap Except.toOption

theorem values_of_inStep (table : OperatorTable) (inStep : InStep s f) :
    delivered (⟨table, s, false⟩ : Run).values <+: delivered (⟨table, f, false⟩ : Run).values ∧
      ((∀ result ∈ (⟨table, s, false⟩ : Run).values, ∃ v, result = .ok v) →
        (⟨table, f, false⟩ : Run).values = (⟨table, s, false⟩ : Run).values) := by
  induction size : s.size using Nat.strongRecOn generalizing s f with
  | ind size ih =>
    match value : table.nextValue s with
    | (.ok (some v), s') =>
      obtain ⟨f', value', inStep'⟩ := inStep.nextValue value
      obtain ⟨fewer, same⟩ := ih _ (size ▸ size_nextValue_lt value) inStep' rfl
      rw [Run.values_of_value value, Run.values_of_value value']
      refine ⟨List.prefix_cons_iff.2 (.inr ⟨_, rfl, fewer⟩), fun good => ?_⟩
      rw [same fun result member => good result (List.mem_cons_of_mem _ member)]
    | (.ok none, s') =>
      have ended : table.nextValue f = (.ok none, f.peek.2) :=
        nextValue_of_atEnd (inStep.atEnd (atEnd_of_nextValue value))
      rw [Run.values_of_end value, Run.values_of_end ended]
      exact ⟨List.prefix_rfl, fun _ => rfl⟩
    | (.error failure, s') =>
      rw [Run.values_of_failure value]
      refine ⟨List.nil_prefix, fun good => ?_⟩
      obtain ⟨v, same⟩ := good _ List.mem_cons_self
      cases same

/-- Where line feeds are blanks, a run gives all the values that it gives where they end expressions,
    and perhaps more behind them; and if every line is complete, the two runs are the same. -/
theorem linewise_refines_freeform (table : OperatorTable) (source : Source) :
    let linewise := (Run.ofSource table .linewise source).values
    let freeform := (Run.ofSource table .freeform source).values
    delivered linewise <+: delivered freeform ∧
      ((∀ result ∈ linewise, ∃ v, result = .ok v) → freeform = linewise) :=
  values_of_inStep table ⟨rfl, rfl, rfl⟩

end Polish
