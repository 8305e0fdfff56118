import Mathlib.Data.List.Basic
import Mathlib.Data.Nat.Find
import Polish.Proofs.Reading

/-! # The outcome of an evaluation, exactly

The items of a stream decide whether an expression can be taken from it.  A counter of the missing
expressions starts at one; a number takes one off, and the word of an operator adds as many as the
operator takes, less one.

* `CompletesAt`: the counter comes to zero, in front of any item that stands for no node.
* `FailsAt`: an item that stands for no node comes first.
* `completes_or_fails`: on every stream it is the one or the other.
* `expression_succeeds_exactly` and `expression_fails_exactly` say what follows from each: the value
  and the failure, and where the stream stands afterwards.
-/

namespace Polish

/-- The failure says `message` and `note` of `token`, and shows the line that `s` holds. -/
def Failure.Reports (failure : Failure) (message : String) (note : Option String) (token : Token)
    (s : TokenStream) : Prop :=
  ∃ d : Diagnostic, failure = .malformed d ∧ d.cause.message = message ∧ d.note = note ∧
    d.place = some token.place ∧ d.code = some (String.ofList s.text) ∧ d.file = none

theorem Failure.reports_diagnose (cause : Cause) (token : Token) (s : TokenStream) :
    (Failure.malformed (s.diagnose cause token.place)).Reports cause.message cause.note? token s :=
  ⟨_, rfl, rfl, rfl, rfl, rfl, rfl⟩

namespace OperatorTable

variable {table : OperatorTable} {s : TokenStream} {n : Nat}

/-- How many expressions are missing behind some items, when one was missing in front of them. -/
def counter (table : OperatorTable) (items : List (Except Failure Token)) : Int :=
  missing 1 (items.filterMap table.node?)

/-- The counter comes to zero behind `n` items for the first time, and each of these is a number or
    the word of an operator. -/
structure CompletesAt (table : OperatorTable) (s : TokenStream) (n : Nat) : Prop where
  nodes : ∀ item ∈ s.results n, (table.node? item).isSome
  complete : table.counter (s.results n) = 0
  first : ∀ k < n, table.counter (s.results k) ≠ 0

/-- The item behind `n` numbers and words of operators is neither, and the counter has not come to
    zero in front of it. -/
structure FailsAt (table : OperatorTable) (s : TokenStream) (n : Nat) : Prop where
  nodes : ∀ item ∈ s.results n, (table.node? item).isSome
  obstacle : table.node? (s.after n).next.1 = none
  waits : ∀ k ≤ n, table.counter (s.results k) ≠ 0

instance : Decidable (table.CompletesAt s n) :=
  decidable_of_iff ((∀ item ∈ s.results n, (table.node? item).isSome) ∧
      table.counter (s.results n) = 0 ∧ ∀ k < n, table.counter (s.results k) ≠ 0)
    ⟨fun ⟨nodes, complete, first⟩ => ⟨nodes, complete, first⟩,
      fun completes => ⟨completes.nodes, completes.complete, completes.first⟩⟩

instance : Decidable (table.FailsAt s n) :=
  decidable_of_iff ((∀ item ∈ s.results n, (table.node? item).isSome) ∧
      table.node? (s.after n).next.1 = none ∧ ∀ k ≤ n, table.counter (s.results k) ≠ 0)
    ⟨fun ⟨nodes, obstacle, waits⟩ => ⟨nodes, obstacle, waits⟩,
      fun fails => ⟨fails.nodes, fails.obstacle, fails.waits⟩⟩

/-! ## The nodes of the items -/

theorem exists_reads (nodes : ∀ item ∈ s.results n, (table.node? item).isSome) :
    ∃ heads, heads.length = n ∧ table.Reads s heads := by
  induction n generalizing s with
  | zero => exact ⟨[], rfl, rfl⟩
  | succ n ih =>
    obtain ⟨head, first⟩ := Option.isSome_iff_exists.1 (nodes _ List.mem_cons_self)
    obtain ⟨heads, length, others⟩ := ih fun item member => nodes item (List.mem_cons_of_mem _ member)
    exact ⟨head :: heads, by rw [List.length_cons, length], reads_cons.2 ⟨first, others⟩⟩

theorem nodes_of_reads {heads : List Head} (reads : table.Reads s heads) :
    ∀ item ∈ s.results heads.length, (table.node? item).isSome := by
  intro item member
  have node : table.node? item ∈ heads.map some := reads ▸ List.mem_map_of_mem member
  obtain ⟨head, _, same⟩ := List.mem_map.1 node
  rw [← same]
  rfl

theorem nodes_of_ne_none (h : ∀ k < n, table.node? (s.after k).next.1 ≠ none) :
    ∀ item ∈ s.results n, (table.node? item).isSome := by
  intro item member
  obtain ⟨k, less, rfl⟩ := TokenStream.exists_of_mem_results member
  exact Option.isSome_iff_ne_none.2 (h k less)

theorem cases_of_node?_eq_none {item : Except Failure Token} (obstacle : table.node? item = none) :
    (∃ failure, item = .error failure) ∨ (∃ token, item = .ok token ∧ token.kind = .word) ∨
      ∃ token reached, item = .ok token ∧ token.kind = .ending reached := by
  cases item with
  | error failure => exact .inl ⟨failure, rfl⟩
  | ok token =>
    cases kind : token.kind with
    | number v => simp [node?, head?, kind] at obstacle
    | word => exact .inr (.inl ⟨token, rfl, kind⟩)
    | ending reached => exact .inr (.inr ⟨token, reached, rfl, kind⟩)

theorem counter_of_reads {heads : List Head} (reads : table.Reads s heads) {k : Nat}
    (le : k ≤ heads.length) : table.counter (s.results k) = missing 1 (heads.take k) := by
  have items : (s.results k).map table.node? = (heads.take k).map some := by
    rw [TokenStream.results_eq_take le, List.map_take, reads, List.map_take]
  have nodes : (s.results k).filterMap table.node? = heads.take k := by
    have same := congrArg (List.filterMap id) items
    rwa [List.filterMap_map, List.filterMap_map, Function.id_comp, Function.id_comp,
      List.filterMap_some] at same
  rw [counter, nodes]

theorem exists_tree_of_completesAt (completes : table.CompletesAt s n) :
    ∃ tree : Expression, tree.preorder.length = n ∧ table.Reads s tree.preorder := by
  obtain ⟨heads, rfl, reads⟩ := exists_reads completes.nodes
  have complete := completes.complete
  rw [counter_of_reads reads (Nat.le_refl _), List.take_length] at complete
  obtain ⟨trees, one, same⟩ := exists_forest (m := 1) complete fun k less => by
    have := completes.first k less
    rwa [counter_of_reads reads (Nat.le_of_lt less)] at this
  -- one expression was missing in front of the items, and so they are those of one tree
  obtain ⟨tree, rfl⟩ := List.length_eq_one_iff.1 one
  rw [forest_cons, forest_nil, List.append_nil] at same
  subst same
  exact ⟨tree, rfl, reads⟩

theorem exists_frames_of_failsAt (fails : table.FailsAt s n) :
    ∃ frames : List Frame, (frames.flatMap Frame.nodes).length = n ∧
      table.Reads s (frames.flatMap Frame.nodes) := by
  obtain ⟨heads, rfl, reads⟩ := exists_reads fails.nodes
  obtain ⟨trees, frames, few, same⟩ := exists_frames (m := 1) fun k le => by
    have := fails.waits k le
    rwa [counter_of_reads reads le] at this
  -- a complete tree in front of the operators that wait would have been all that was missing
  obtain rfl := List.length_eq_zero_iff.1 (Nat.lt_one_iff.1 few)
  rw [forest_nil, List.nil_append] at same
  subst same
  exact ⟨frames, rfl, reads⟩

/-- Every stream has an item that is no node, at the latest the end of its input, and the counter
    comes to zero in front of the first one or does not. -/
theorem completes_or_fails (table : OperatorTable) (s : TokenStream) :
    (∃ n, table.CompletesAt s n) ∨ ∃ n, table.FailsAt s n := by
  have obstacles : ∃ n, table.node? (s.after n).next.1 = none := by
    obtain ⟨n, token, item, last⟩ := s.exists_isLast
    exact ⟨n, by simp [item, node?, head?, Token.isLast_iff.1 last]⟩
  -- the first obstacle, and in front of it the first place where nothing is missing
  obtain ⟨k, obstacle, least⟩ : ∃ k, table.node? (s.after k).next.1 = none ∧
      ∀ j < k, table.node? (s.after j).next.1 ≠ none :=
    ⟨Nat.find obstacles, Nat.find_spec obstacles, fun _ => Nat.find_min obstacles⟩
  by_cases closed : ∃ n, n ≤ k ∧ table.counter (s.results n) = 0
  -- where one comes first, the items in front of it are nodes, as they come before the obstacle
  · refine .inl ⟨Nat.find closed, ?_, (Nat.find_spec closed).2, fun j less zero => ?_⟩
    · exact nodes_of_ne_none fun j less =>
        least j (Nat.lt_of_lt_of_le less (Nat.find_spec closed).1)
    · exact Nat.find_min closed less
        ⟨Nat.le_trans (Nat.le_of_lt less) (Nat.find_spec closed).1, zero⟩
  · exact .inr ⟨k, nodes_of_ne_none least, obstacle, fun j le zero => closed ⟨j, le, zero⟩⟩

/-! ## From the items to the result -/

theorem expression_of_completesAt (completes : table.CompletesAt s n) :
    ∃ tree : Expression, tree.preorder.length = n ∧ table.Reads s tree.preorder ∧
      table.expression s = (.ok tree.value, s.after n) := by
  obtain ⟨tree, rfl, reads⟩ := exists_tree_of_completesAt completes
  exact ⟨tree, rfl, reads, expression_of_reads reads⟩

/-- Unless it is an ending, the item that is no node fails an evaluation as it would fail one that
    starts with it. -/
theorem expression_of_obstacle {failure : Failure} {s' : TokenStream} (fails : table.FailsAt s n)
    (notEnding : ¬ IsEnding (s.after n).next.1)
    (failed : table.expression (s.after n) = (.error failure, s')) :
    table.expression s = (.error failure, s') := by
  obtain ⟨frames, rfl, reads⟩ := exists_frames_of_failsAt fails
  exact expression_of_frames_error reads notEnding failed

theorem expression_of_failure_item {failure : Failure} (fails : table.FailsAt s n)
    (item : (s.after n).next.1 = .error failure) :
    table.expression s = (.error failure, s.after (n + 1)) := by
  refine expression_of_obstacle fails (item ▸ not_isEnding_error) ?_
  rw [expression_eq, TokenStream.next_after item]

theorem expression_of_unregistered {token : Token} (fails : table.FailsAt s n)
    (item : (s.after n).next.1 = .ok token) (kind : token.kind = .word) :
    table.expression s =
      (.error (.malformed
        ((s.after (n + 1)).diagnose (.unknownOperator token.lexeme) token.place)),
        s.after (n + 1)) := by
  have unregistered : table.find? token.lexeme = none := by
    simpa [item, node?, head?, kind] using fails.obstacle
  refine expression_of_obstacle fails (item ▸ not_isEnding_of_word kind) ?_
  rw [expression_eq, TokenStream.next_after item]
  simp only [kind, unregistered]

theorem expression_of_ending {token : Token} {reached : Terminator}
    (item : s.next.1 = .ok token) (kind : token.kind = .ending reached) :
    table.expression s =
      (.error (.malformed (s.next.2.diagnose (.missingExpression reached) token.place)),
        s.next.2) := by
  have taken : s.next = (.ok token, s.next.2) := Prod.ext item rfl
  rw [expression_eq, taken]
  simp only [kind]

/-- Behind operators that wait, an ending is reported for the last one of them.  It is looked at and
    not taken. -/
theorem expression_of_ending_behind {token : Token} {reached : Terminator}
    (fails : table.FailsAt s n) (item : (s.after n).next.1 = .ok token)
    (kind : token.kind = .ending reached) (behind : n ≠ 0) :
    ∃ nodes op found, (s.results n).map table.node? = nodes.map some ∧ Innermost nodes op found ∧
      table.expression s =
        (.error (.malformed ((s.after n).peek.2.diagnose
          (.missingOperand op.symbol op.arity found reached) token.place)), (s.after n).peek.2) := by
  obtain ⟨frames, rfl, reads⟩ := exists_frames_of_failsAt fails
  obtain rfl | ⟨outer, frame, rfl⟩ := List.eq_nil_or_concat' frames
  · exact absurd rfl behind
  · refine ⟨_, frame.operator, frame.operands.length, reads, innermost_of_frames outer frame, ?_⟩
    rw [List.flatMap_append, List.flatMap_singleton] at reads item ⊢
    rw [List.length_append, TokenStream.after_add] at item ⊢
    obtain ⟨outside, inside⟩ := reads_append.1 reads
    obtain ⟨s₁, looked, _⟩ := TokenStream.peek_of_next_ok (TokenStream.next_after item)
    -- the last operator misses an operand, and the operators around it hand that on
    refine expression_of_frames_error outside (not_isEnding_of_node? (reads_cons.1 inside).1) ?_
    rw [expression_of_frame inside, operandsFrom_of_ending (by simpa using frame.waits) looked kind,
      looked, frame.size_values]

theorem ne_zero_of_innermost {nodes : List Head} {op : Operator} {found : Nat}
    (reads : (s.results n).map table.node? = nodes.map some) (innermost : Innermost nodes op found) :
    n ≠ 0 := by
  rintro rfl
  exact innermost.ne_nil (List.map_eq_nil_iff.1 reads.symm)

theorem expression_of_innermost {token : Token} {reached : Terminator} {nodes : List Head}
    {op : Operator} {found : Nat} (fails : table.FailsAt s n) (item : (s.after n).next.1 = .ok token)
    (kind : token.kind = .ending reached) (reads : (s.results n).map table.node? = nodes.map some)
    (innermost : Innermost nodes op found) :
    table.expression s =
      (.error (.malformed ((s.after n).peek.2.diagnose
        (.missingOperand op.symbol op.arity found reached) token.place)), (s.after n).peek.2) := by
  obtain ⟨nodes', op', found', reads', innermost', failed⟩ :=
    expression_of_ending_behind fails item kind (ne_zero_of_innermost reads innermost)
  -- the items tell the nodes, and these the operator that waits last
  obtain rfl : nodes' = nodes :=
    List.map_injective_iff.2 (fun _ _ => Option.some.inj) (reads'.symm.trans reads)
  obtain ⟨rfl, rfl⟩ := innermost'.unique innermost
  exact failed

theorem exists_failure_of_failsAt (fails : table.FailsAt s n) :
    ∃ failure s', table.expression s = (.error failure, s') := by
  obtain ⟨failure, item⟩ | ⟨token, item, kind⟩ | ⟨token, reached, item, kind⟩ :=
    cases_of_node?_eq_none fails.obstacle
  · exact ⟨_, _, expression_of_failure_item fails item⟩
  · exact ⟨_, _, expression_of_unregistered fails item kind⟩
  · cases n with
    | zero => exact ⟨_, _, expression_of_ending item kind⟩
    | succ n =>
      obtain ⟨_, _, _, _, _, failed⟩ :=
        expression_of_ending_behind fails item kind (Nat.succ_ne_zero n)
      exact ⟨_, _, failed⟩

/-! ## The two outcomes -/

/-- An evaluation gives a value exactly when nothing is missing any more behind some items, all of
    them nodes.  These items are then the nodes of one tree, its value is given, and just these items
    are taken, whatever stands behind them. -/
theorem expression_succeeds_exactly (table : OperatorTable) (s : TokenStream) :
    ((∃ v s', table.expression s = (.ok v, s')) ↔ ∃ n, table.CompletesAt s n) ∧
      ∀ n, table.CompletesAt s n →
        ∃ tree : Expression,
          (s.results n).map table.node? = tree.preorder.map some ∧
          (∀ other : Expression,
            (s.results n).map table.node? = other.preorder.map some → other = tree) ∧
          table.expression s = (.ok tree.value, s.after n) ∧
          ∀ s' : TokenStream, s'.results n = s.results n →
            table.expression s' = (.ok tree.value, s'.after n) := by
  refine ⟨⟨fun ⟨v, s', value⟩ => ?_, fun ⟨n, completes⟩ => ?_⟩, fun n completes => ?_⟩
  · obtain completes | ⟨k, fails⟩ := completes_or_fails table s
    · exact completes
    · obtain ⟨failure, s'', failed⟩ := exists_failure_of_failsAt fails
      rw [failed] at value
      cases value
  · obtain ⟨tree, _, _, value⟩ := expression_of_completesAt completes
    exact ⟨_, _, value⟩
  -- an evaluation depends on these items alone, and two trees with the same nodes are the same
  · obtain ⟨tree, rfl, reads, value⟩ := expression_of_completesAt completes
    refine ⟨tree, reads, fun other same => ?_, value, fun s' same => expression_of_reads ?_⟩
    · have nodes : other.preorder.map some = tree.preorder.map some := same.symm.trans reads
      exact Expression.preorder_injective (List.map_injective_iff.2 (fun _ _ => Option.some.inj) nodes)
    · rw [Reads, same]
      exact reads

theorem expression_succeeds_on_nested :
    basicTable.CompletesAt (.ofString "+ 1 * 2 3 4") 5 ∧
      ∃ tree : Expression, basicTable.expression (.ofString "+ 1 * 2 3 4") =
        (.ok tree.value, (TokenStream.ofString "+ 1 * 2 3 4").after 5) := by
  have completes : basicTable.CompletesAt (.ofString "+ 1 * 2 3 4") 5 := by decide +kernel
  obtain ⟨tree, _, _, value, _⟩ := (expression_succeeds_exactly _ _).2 5 completes
  exact ⟨completes, tree, value⟩

/-- An evaluation fails exactly when an item that is no node comes while something is missing, and
    this item settles the failure.
    * A failure is handed on, and taken.
    * A word without an operator is reported, and taken.
    * An ending at the very front is reported as a missing expression, and taken.
    * An ending further on is reported as a missing operand of the operator that waits last, and stays
      the next item. -/
theorem expression_fails_exactly (table : OperatorTable) (s : TokenStream) :
    ((∃ failure s', table.expression s = (.error failure, s')) ↔ ∃ n, table.FailsAt s n) ∧
      ∀ n, table.FailsAt s n →
        (∀ failure, (s.after n).next.1 = .error failure →
          table.expression s = (.error failure, s.after (n + 1))) ∧
        (∀ token, (s.after n).next.1 = .ok token → token.kind = .word →
          ∃ failure, table.expression s = (.error failure, s.after (n + 1)) ∧
            failure.Reports ("unknown operator `" ++ token.lexeme ++ "`") none token
              (s.after (n + 1))) ∧
        (∀ token reached, (s.after n).next.1 = .ok token → token.kind = .ending reached → n = 0 →
          ∃ failure, table.expression s = (.error failure, s.after 1) ∧
            failure.Reports ("expected an expression, found " ++ reached.name) none token
              (s.after 1)) ∧
        (∀ token reached, (s.after n).next.1 = .ok token → token.kind = .ending reached → n ≠ 0 →
          ∃ failure s' nodes op found, table.expression s = (.error failure, s') ∧
            (s.results n).map table.node? = nodes.map some ∧
            Innermost nodes op found ∧
            (∀ op' found', Innermost nodes op' found' → op' = op ∧ found' = found) ∧
            failure.Reports ("operator `" ++ op.symbol ++ "` expects " ++ toString op.arity
              ++ " operands, found " ++ toString found) (some ("reached " ++ reached.name)) token s' ∧
            s'.next = (s.after n).next) := by
  refine ⟨⟨fun ⟨failure, s', failed⟩ => ?_, fun ⟨n, fails⟩ => exists_failure_of_failsAt fails⟩,
    fun n fails => ⟨fun failure item => ?_, fun token item kind => ?_,
      fun token reached item kind front => ?_, fun token reached item kind behind => ?_⟩⟩
  · obtain ⟨n, completes⟩ | fails := completes_or_fails table s
    · obtain ⟨_, _, _, value⟩ := expression_of_completesAt completes
      rw [value] at failed
      cases failed
    · exact fails
  · exact expression_of_failure_item fails item
  · exact ⟨_, expression_of_unregistered fails item kind, Failure.reports_diagnose _ _ _⟩
  · subst front
    exact ⟨_, expression_of_ending item kind, Failure.reports_diagnose _ _ _⟩
  · obtain ⟨nodes, op, found, reads, innermost, failed⟩ :=
      expression_of_ending_behind fails item kind behind
    obtain ⟨s₁, looked, again⟩ := TokenStream.peek_of_next_ok (TokenStream.next_after item)
    refine ⟨_, _, nodes, op, found, failed, reads, innermost, fun op' found' other =>
      other.unique innermost, Failure.reports_diagnose _ _ _, ?_⟩
    rw [looked, again, TokenStream.next_after item]

theorem expression_fails_on_unfinished :
    basicTable.FailsAt (.ofString "+ 1 * 2") 4 ∧
      ∃ failure s', basicTable.expression (.ofString "+ 1 * 2") = (.error failure, s') ∧
        s'.next = ((TokenStream.ofString "+ 1 * 2").after 4).next := by
  have fails : basicTable.FailsAt (.ofString "+ 1 * 2") 4 := by decide +kernel
  obtain ⟨token, item, kind⟩ : ∃ token,
      ((TokenStream.ofString "+ 1 * 2").after 4).next.1 = .ok token ∧
        token.kind = .ending .endOfInput := ⟨_, rfl, rfl⟩
  obtain ⟨failure, s', _, _, _, failed, _, _, _, _, again⟩ :=
    ((expression_fails_exactly _ _).2 4 fails).2.2.2 token .endOfInput item kind (by decide)
  exact ⟨fails, failure, s', failed, again⟩

end OperatorTable

end Polish
