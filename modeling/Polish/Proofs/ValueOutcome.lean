import Polish.Proofs.Scanning
import Polish.Proofs.Values

/-! # The outcome of one value

What one value of a run is, and how many items it takes, is told by the items alone, and so is every
failure.

* `Outcome` lists what can come of the items, with the number of items that were taken or looked at.
* `nextValue_of_outcome` and `exists_outcome`: a run gives what its items tell, and they always tell
  something.
* `Outcome.transfer`: two streams with the same items have the same outcome.
-/

namespace Polish

namespace OperatorTable

variable {table : OperatorTable} {s s' : TokenStream} {n : Nat} {result : Except Failure (Option Float)}

/-- The token behind `n` nodes is not what has to follow there. -/
inductive Refuses (table : OperatorTable) (s : TokenStream) (token : Token) : Nat → Cause → Prop where
  | second {tree : Expression} (reads : table.Reads s tree.preorder) (layout : s.layout = .linewise)
      (kind : ∀ reached, token.kind ≠ .ending reached) :
      Refuses table s token tree.preorder.length (.secondExpression token.lexeme)
  | unknown {n : Nat} (fails : table.FailsAt s n) (kind : token.kind = .word) :
      Refuses table s token n (.unknownOperator token.lexeme)
  | missing (fails : table.FailsAt s 0) (kind : token.kind = .ending .endOfLine) :
      Refuses table s token 0 (.missingExpression .endOfLine)
  | unfinished {n found : Nat} {reached : Terminator} {nodes : List Head} {op : Operator}
      (fails : table.FailsAt s n) (kind : token.kind = .ending reached)
      (reads : (s.results n).map table.node? = nodes.map some) (innermost : Innermost nodes op found) :
      Refuses table s token n (.missingOperand op.symbol op.arity found reached)

/-- What comes of the items of a stream when a value is asked for, and how many of them it takes to
    know it. -/
inductive Outcome (table : OperatorTable) (s : TokenStream) :
    Nat → Except Failure (Option Float) → Prop where
  | ended (atEnd : s.AtEnd) : Outcome table s 1 (.ok none)
  | value {tree : Expression} (reads : table.Reads s tree.preorder) (layout : s.layout = .freeform) :
      Outcome table s tree.preorder.length (.ok (some tree.value))
  | line {tree : Expression} {token : Token} {reached : Terminator}
      (reads : table.Reads s tree.preorder) (layout : s.layout = .linewise)
      (item : (s.after tree.preorder.length).next.1 = .ok token) (kind : token.kind = .ending reached) :
      Outcome table s (tree.preorder.length + 1) (.ok (some tree.value))
  | failure {n : Nat} {failure : Failure} (item : (s.after n).next.1 = .error failure)
      (nodes : table.FailsAt s n ∨ s.layout = .linewise ∧
        ∃ tree : Expression, tree.preorder.length = n ∧ table.Reads s tree.preorder) :
      Outcome table s (n + 1) (.error failure)
  | refused {n : Nat} {token : Token} {cause : Cause} (item : (s.after n).next.1 = .ok token)
      (refuses : table.Refuses s token n cause) :
      Outcome table s (n + 1) (.error (.malformed ((s.after (n + 1)).diagnose cause token.place)))

theorem nodes_of_failure (nodes : table.FailsAt s n ∨ s.layout = .linewise ∧
      ∃ tree : Expression, tree.preorder.length = n ∧ table.Reads s tree.preorder) :
    ∀ item ∈ s.results n, (table.node? item).isSome := by
  obtain fails | ⟨_, tree, rfl, reads⟩ := nodes
  · exact fails.nodes
  · exact nodes_of_reads reads

theorem Refuses.nodes {token : Token} {cause : Cause} (refuses : table.Refuses s token n cause) :
    ∀ item ∈ s.results n, (table.node? item).isSome := by
  cases refuses with
  | second reads => exact nodes_of_reads reads
  | unknown fails => exact fails.nodes
  | missing fails => exact fails.nodes
  | unfinished fails => exact fails.nodes

theorem failsAt_zero (obstacle : table.node? s.next.1 = none) : table.FailsAt s 0 where
  nodes _ member := (List.not_mem_nil member).elim
  obstacle := obstacle
  waits k le := by
    obtain rfl := Nat.le_zero.1 le
    exact Int.one_ne_zero

theorem not_atEnd_of_failsAt (fails : table.FailsAt s n)
    (first : n = 0 → ∀ token, s.next.1 = .ok token → token.isLast = false) : ¬ s.AtEnd := by
  cases n with
  | zero =>
    rintro ⟨token, item, last⟩
    rw [first rfl token item] at last
    contradiction
  | succ n => exact not_atEnd_of_node? (fails.nodes _ List.mem_cons_self)

theorem nextValue_of_refuses {token : Token} {cause : Cause} (item : (s.after n).next.1 = .ok token)
    (refuses : table.Refuses s token n cause) :
    ∃ looked, table.nextValue s =
      (.error (.malformed ((s.after (n + 1)).diagnose cause token.place)),
        { s.after (n + 1) with lookahead := looked }) := by
  have first : token.isLast = false → n = 0 → ∀ other, s.next.1 = .ok other → other.isLast = false := by
    rintro goesOn rfl other same
    obtain rfl : other = token := Except.ok.inj (same.symm.trans item)
    exact goesOn
  cases refuses with
  | @second tree reads layout kind =>
    have closed := TokenStream.closeLine_of_not_ending
      ((TokenStream.layout_after s tree.preorder.length).trans layout) (TokenStream.next_after item) kind
    refine ⟨(s.after (tree.preorder.length + 1)).lookahead, ?_⟩
    rw [nextValue_of_reads reads, closed]
  | unknown fails kind =>
    have goesOn := not_atEnd_of_failsAt fails (first (by rw [Token.isLast, kind]))
    exact ⟨(s.after (n + 1)).lookahead,
      nextValue_of_failure goesOn (expression_of_unregistered fails item kind)⟩
  | missing fails kind =>
    have goesOn := not_atEnd_of_failsAt fails (first (by rw [Token.isLast, kind]))
    exact ⟨(s.after 1).lookahead, nextValue_of_failure goesOn (expression_of_ending item kind)⟩
  | unfinished fails kind reads innermost =>
    have goesOn := not_atEnd_of_failsAt fails fun none =>
      absurd none (ne_zero_of_innermost reads innermost)
    obtain ⟨looked, peek_eq⟩ := TokenStream.exists_peek_eq (s.after n)
    have failed := expression_of_innermost fails item kind reads innermost
    rw [peek_eq, ← TokenStream.after_succ] at failed
    exact ⟨looked, nextValue_of_failure goesOn failed⟩

/-- A run gives what its items tell.  Of what it leaves behind, the last item may have been looked at
    only, but not where it gives a value. -/
theorem nextValue_of_outcome (outcome : table.Outcome s n result) :
    ∃ s₁ looked, table.nextValue s = (result, s₁) ∧
      s₁ = { s.after n with lookahead := looked } ∧ ∀ v, result = .ok (some v) → s₁ = s.after n := by
  cases outcome with
  | ended atEnd =>
    obtain ⟨looked, peek_eq⟩ := s.exists_peek_eq
    exact ⟨_, looked, nextValue_of_atEnd atEnd, peek_eq, fun v same => by cases same⟩
  | @value tree reads layout =>
    refine ⟨s.after tree.preorder.length, _, ?_, rfl, fun _ _ => rfl⟩
    rw [nextValue_of_reads reads,
      TokenStream.closeLine_of_freeform ((TokenStream.layout_after s _).trans layout)]
  | @line tree token reached reads layout item kind =>
    refine ⟨s.after (tree.preorder.length + 1), _, ?_, rfl, fun _ _ => rfl⟩
    rw [nextValue_of_reads reads, TokenStream.closeLine_of_ending
      ((TokenStream.layout_after s tree.preorder.length).trans layout) (TokenStream.next_after item) kind]
  | @failure n failure item nodes =>
    refine ⟨s.after (n + 1), _, ?_, rfl, fun _ _ => rfl⟩
    obtain fails | ⟨layout, tree, rfl, reads⟩ := nodes
    · refine nextValue_of_failure (not_atEnd_of_failsAt fails ?_) (expression_of_failure_item fails item)
      rintro rfl token same
      cases same.symm.trans item
    · rw [nextValue_of_reads reads, TokenStream.closeLine_of_error
        ((TokenStream.layout_after s tree.preorder.length).trans layout) (TokenStream.next_after item)]
  | refused item refuses =>
    obtain ⟨looked, value⟩ := nextValue_of_refuses item refuses
    exact ⟨_, looked, value, rfl, fun v same => by cases same⟩

/-- The items always tell something. -/
theorem exists_outcome (table : OperatorTable) (s : TokenStream) :
    ∃ n result, table.Outcome s n result := by
  by_cases atEnd : s.AtEnd
  · exact ⟨1, _, .ended atEnd⟩
  obtain ⟨n, completes⟩ | ⟨n, fails⟩ := completes_or_fails table s
  · obtain ⟨tree, rfl, reads⟩ := exists_tree_of_completesAt completes
    cases layout : s.layout with
    | freeform => exact ⟨_, _, .value reads layout⟩
    | linewise =>
      cases item : (s.after tree.preorder.length).next.1 with
      | error failure => exact ⟨_, _, .failure item (.inr ⟨layout, tree, rfl, reads⟩)⟩
      | ok token =>
        by_cases ending : ∃ reached, token.kind = .ending reached
        · obtain ⟨reached, kind⟩ := ending
          exact ⟨_, _, .line reads layout item kind⟩
        · exact ⟨_, _, .refused item (.second reads layout fun reached kind => ending ⟨reached, kind⟩)⟩
  · obtain ⟨failure, item⟩ | ⟨token, item, kind⟩ | ⟨token, reached, item, kind⟩ :=
      cases_of_node?_eq_none fails.obstacle
    · exact ⟨_, _, .failure item (.inl fails)⟩
    · exact ⟨_, _, .refused item (.unknown fails kind)⟩
    · cases n with
      | zero =>
        cases reached with
        | endOfLine => exact ⟨_, _, .refused item (.missing fails kind)⟩
        | endOfInput => exact absurd ⟨token, item, Token.isLast_iff.2 kind⟩ atEnd
      | succ n =>
        obtain ⟨nodes, op, found, reads, innermost, _⟩ :=
          expression_of_ending_behind fails item kind (Nat.succ_ne_zero n)
        exact ⟨_, _, .refused item (.unfinished fails kind reads innermost)⟩

/-! ## Streams with the same items -/

theorem Reads.transfer {nodes : List Head} (reads : table.Reads s nodes)
    (same : s'.results nodes.length = s.results nodes.length) : table.Reads s' nodes := by
  rw [Reads, same]
  exact reads

theorem FailsAt.transfer (fails : table.FailsAt s n)
    (same : s'.results (n + 1) = s.results (n + 1)) : table.FailsAt s' n where
  nodes := TokenStream.results_of_le same n.le_succ ▸ fails.nodes
  obstacle := (congrArg table.node? (TokenStream.next_of_results same)).trans fails.obstacle
  waits k le := by
    rw [TokenStream.results_of_le same (Nat.le_succ_of_le le)]
    exact fails.waits k le

theorem Refuses.transfer {token : Token} {cause : Cause} (refuses : table.Refuses s token n cause)
    (layout : s'.layout = s.layout) (same : s'.results (n + 1) = s.results (n + 1)) :
    table.Refuses s' token n cause := by
  have before := TokenStream.results_of_le same n.le_succ
  cases refuses with
  | second reads linewise kind => exact .second (reads.transfer before) (layout.trans linewise) kind
  | unknown fails kind => exact .unknown (fails.transfer same) kind
  | missing fails kind => exact .missing (fails.transfer same) kind
  | unfinished fails kind reads innermost =>
    exact .unfinished (fails.transfer same) kind (before ▸ reads) innermost

/-- Streams with the same items, in the same layout, have the same outcome. -/
theorem Outcome.transfer (outcome : table.Outcome s n result) (layout : s'.layout = s.layout)
    (same : s'.results n = s.results n) (text : (s'.after n).text = (s.after n).text) :
    table.Outcome s' n result := by
  cases outcome with
  | ended atEnd =>
    obtain ⟨token, item, last⟩ := atEnd
    exact .ended ⟨token, (TokenStream.next_of_results same).trans item, last⟩
  | value reads freeform => exact .value (reads.transfer same) (layout.trans freeform)
  | line reads linewise item kind =>
    exact .line (reads.transfer (TokenStream.results_of_le same (Nat.le_succ _)))
      (layout.trans linewise) ((TokenStream.next_of_results same).trans item) kind
  | failure item nodes =>
    refine .failure ((TokenStream.next_of_results same).trans item) ?_
    obtain fails | ⟨linewise, tree, rfl, reads⟩ := nodes
    · exact .inl (fails.transfer same)
    · exact .inr ⟨layout.trans linewise, tree, rfl,
        reads.transfer (TokenStream.results_of_le same (Nat.le_succ _))⟩
  | @refused n token cause item refuses =>
    have shown : (s'.after (n + 1)).diagnose cause token.place =
        (s.after (n + 1)).diagnose cause token.place := by
      rw [TokenStream.diagnose, TokenStream.diagnose, text]
    exact shown ▸ .refused ((TokenStream.next_of_results same).trans item) (refuses.transfer layout same)

end OperatorTable

end Polish
