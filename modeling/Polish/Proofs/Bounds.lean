import Mathlib.Algebra.BigOperators.Group.List.Basic
import Polish.Proofs.Derivations
import Polish.Proofs.Exhaustion
import Polish.Proofs.Laziness

/-! # Everything comes to an end

How much can be taken from a source is bounded by what the source holds: its bytes, and the reads that
fail.  Nothing else plays a part, neither the layout nor how many operands an operator takes.

* `length_itemsOfReads_le`: there is at most one item for each byte and each failure.
* `Run.length_values_le`: a run gives at most one value, or a failure, for each of them.
* `streams_and_runs_end` puts this together.
-/

namespace Polish

/-! ## The number of items -/

theorem Text.length_le_length_encode (cs : List Char) : cs.length ≤ (Text.encode cs).length := by
  change cs.length ≤ Text.byteLength cs
  induction cs with
  | nil => exact Nat.le_refl _
  | cons c cs ih =>
    have := c.utf8Size_pos
    rw [List.length_cons, Text.byteLength_cons]
    omega

theorem length_pieces_le (line : List Char) :
    (pieces line).length ≤ (line.filter fun c => !Text.isBlank c).length := by
  have some : ∀ p ∈ pieces line, 1 ≤ p.chars.length := by
    intro p member
    obtain ⟨before, after, _, _, fits⟩ := mem_pieces_iff.1 member
    obtain ⟨c, chars, same, _⟩ := fits.exists_cons
    rw [Piece.chars, same]
    exact Nat.succ_pos _
  rw [← flatMap_chars_pieces, List.length_flatMap]
  have least := List.length_le_sum_of_one_le ((pieces line).map fun p => p.chars.length)
    (by simpa using some)
  rwa [List.length_map] at least

theorem length_itemsOfLine_le (layout : Layout) (n : Nat) (line : List Char) :
    (itemsOfLine layout n line).length ≤ line.length := by
  have few := length_pieces_le line
  rw [itemsOfLine, List.length_append, List.length_map]
  split
  · next feed =>
    -- the line feed is a blank, and so in no piece
    obtain ⟨body, rfl⟩ := List.getLast?_eq_some_iff.1 feed.2
    have blank : ['\n'].filter (fun c => !Text.isBlank c) = [] := by decide
    have inside := List.length_filter_le (fun c => !Text.isBlank c) body
    rw [List.filter_append, blank, List.append_nil] at few
    rw [List.length_append, List.length_singleton, List.length_singleton]
    omega
  · exact Nat.le_trans few (List.length_filter_le _ line)

namespace Source

/-- The messages of the reads that fail. -/
def failures (source : Source) : List String :=
  source.signals.filterMap Signal.message?

theorem length_signals (signals : List Signal) :
    signals.length = (bytesOf signals).length + (signals.filterMap Signal.message?).length := by
  induction signals with
  | nil => rfl
  | cons signal signals ih =>
    cases signal with
    | byte b =>
      rw [List.length_cons, ih, bytesOf, List.length_cons, List.filterMap_cons_none rfl]
      omega
    | failure message =>
      have one : Signal.message? (.failure message) = some message := rfl
      rw [List.length_cons, ih, bytesOf, List.filterMap_cons_some one, List.length_cons]
      omega

theorem length_bytesOf_le (signals : List Signal) : (bytesOf signals).length ≤ signals.length := by
  rw [length_signals signals]
  exact Nat.le_add_right _ _

end Source

theorem length_itemsOfReads_stretches_le (layout : Layout) (n : Nat)
    {stretches : List (List Source.Signal)} (some : [] ∉ stretches) :
    (itemsOfReads layout n (stretches.map Read.ofStretch)).length ≤ stretches.flatten.length := by
  induction stretches generalizing n with
  | nil => exact Nat.le_refl _
  | cons stretch stretches ih =>
    obtain ⟨first, others⟩ := not_or.1 (mt List.mem_cons.2 some)
    rw [List.map_cons, List.flatten_cons, List.length_append]
    obtain ⟨line, text, _⟩ | ⟨message, fault, _⟩ := (Read.ofStretch stretch).text_or_fault
    · rw [itemsOfReads_cons_of_text _ text, List.length_append]
      have bytes := (Read.text?_ofStretch.1 text).2
      have short : line.length ≤ stretch.length := by
        refine Nat.le_trans (Text.length_le_length_encode line) ?_
        rw [bytes]
        exact Source.length_bytesOf_le stretch
      exact Nat.add_le_add (Nat.le_trans (length_itemsOfLine_le layout n line) short) (ih (n + 1) others)
    · rw [itemsOfReads_cons_of_fault _ fault, List.length_cons, Nat.add_comm]
      exact Nat.add_le_add (List.length_pos_iff.2 (Ne.symm first)) (ih n others)

/-- At most one item for each byte and each failure of the source. -/
theorem length_itemsOfReads_le (layout : Layout) (source : Source) :
    (itemsOfReads layout 1 source.reads).length ≤ source.bytes.length + source.failures.length := by
  have reads : source.reads = source.stretches.map Read.ofStretch :=
    Source.readsFrom_eq_map_stretches source.signals
  have few := length_itemsOfReads_stretches_le layout 1
    (List.nil_notMem_splitBy (fun (signal _ : Source.Signal) => !signal.stops) source.signals)
  rw [List.flatten_splitBy, Source.length_signals] at few
  rw [reads]
  exact few

/-! ## The values of a run -/

section

open TokenStream OperatorTable

variable {table : OperatorTable} {s : TokenStream} {last : Token}

/-- The items that an expression is read from are tokens, and none of them ends the input. -/
theorem exists_token_of_reads {tree : Expression} (reads : table.Reads s tree.preorder) {k : Nat}
    (less : k < tree.preorder.length) : ∃ token, s.queue.get k = .ok token ∧ token.isLast = false := by
  have node := nodes_of_reads reads _ (next_mem_results less)
  obtain ⟨token, item⟩ := exists_token_of_node? node
  exact ⟨token, item, isLast_of_node? (item ▸ node)⟩

theorem le_of_reads {tree : Expression} (reads : table.Reads s tree.preorder) {k : Nat}
    (item : s.queue.get k = .ok last) (isLast : last.isLast = true) : tree.preorder.length ≤ k := by
  by_contra more
  obtain ⟨token, same, goesOn⟩ := exists_token_of_reads reads (Nat.lt_of_not_le more)
  cases item.symm.trans same
  rw [isLast] at goesOn
  contradiction

/-- A value takes at least the items of its expression, and leaves no more than the others. -/
theorem exists_behind_value {n k : Nat} {v : Float} (outcome : table.Outcome s n (.ok (some v)))
    (isLast : last.isLast = true) (ends : ∀ i ≥ k, s.queue.get i = .ok last) :
    ∃ j < k, ∀ i ≥ j, (s.after n).queue.get i = .ok last := by
  have behind : ∀ {tree : Expression}, table.Reads s tree.preorder → tree.preorder.length ≤ n →
      ∃ j < k, ∀ i ≥ j, (s.after n).queue.get i = .ok last := by
    intro tree reads le
    have few := le_of_reads reads (ends k (Nat.le_refl k)) isLast
    have some := tree.length_preorder_ne_zero
    refine ⟨k - tree.preorder.length, by omega, fun i more => ?_⟩
    have later := ends (n + i) (by omega)
    rwa [Stream'.get, queue, after_add] at later
  cases outcome with
  | value reads => exact behind reads (Nat.le_refl _)
  | line reads => exact behind reads (Nat.le_succ _)

namespace Run

theorem length_values_le {k : Nat} (isLast : last.isLast = true)
    (ends : ∀ i ≥ k, s.queue.get i = .ok last) : (⟨table, s, false⟩ : Run).values.length ≤ k := by
  induction k using Nat.strongRecOn generalizing s with
  | ind k ih =>
    by_cases atEnd : s.AtEnd
    · rw [values_of_end (nextValue_of_atEnd atEnd)]
      exact Nat.zero_le k
    · have some : 1 ≤ k := by
        rw [Nat.one_le_iff_ne_zero]
        rintro rfl
        exact atEnd ⟨last, ends 0 (Nat.le_refl 0), isLast⟩
      obtain ⟨n, result, outcome⟩ := exists_outcome table s
      obtain ⟨s₁, _, value, _, same⟩ := nextValue_of_outcome outcome
      obtain failure | _ | v := result
      · rw [values_of_failure value]
        exact some
      · exact absurd (atEnd_of_nextValue value) atEnd
      · obtain ⟨j, less, ends'⟩ := exists_behind_value outcome isLast ends
        rw [values_of_value value, same v rfl, List.length_cons]
        exact Nat.lt_of_le_of_lt (ih j less ends') less

/-- A value uses up at least one token, and the run goes on behind what was used up. -/
theorem exists_token_of_value {run : Run} {v : Float} (given : run.next?.1 = some (.ok v)) :
    ∃ j token, 1 ≤ j ∧ run.stream.next.1 = .ok token ∧ token.isLast = false ∧
      run.next?.2.stream = run.stream.after j := by
  obtain ⟨table, s, finished⟩ := run
  cases finished with
  | true => cases given
  | false =>
    obtain ⟨n, outcome⟩ := exists_outcome_of_value given
    rw [next?_of_value outcome]
    have some {tree : Expression} : 0 < tree.preorder.length :=
      Nat.pos_of_ne_zero tree.length_preorder_ne_zero
    cases outcome with
    | value reads =>
      obtain ⟨token, item, goesOn⟩ := exists_token_of_reads reads some
      exact ⟨_, token, some, item, goesOn, rfl⟩
    | line reads =>
      obtain ⟨token, item, goesOn⟩ := exists_token_of_reads reads some
      exact ⟨_, token, Nat.succ_pos _, item, goesOn, rfl⟩

theorem after_succ (run : Run) (k : Nat) : run.after (k + 1) = (run.after k).next?.2 := by
  induction k generalizing run with
  | zero => rfl
  | succ k ih => exact ih run.next?.2

/-- The values are what is given to one pull after the other, until nothing is given any more. -/
theorem pull_eq_getElem?_values (run : Run) (k : Nat) : run.pull k = run.values[k]? := by
  induction k generalizing run with
  | zero =>
    rcases given : run.next? with ⟨_ | result, run'⟩
    · rw [values_of_nothing given]
      exact congrArg Prod.fst given
    · rw [values_of_next? given]
      exact congrArg Prod.fst given
  | succ k ih =>
    rcases given : run.next? with ⟨_ | result, run'⟩
    · have first : run.pull 0 = Option.none := congrArg Prod.fst given
      have notValue : ∀ v, run.pull 0 ≠ some (.ok v) := fun v same => by
        rw [first] at same
        cases same
      rw [values_of_nothing given, (pull_of_stopped notValue (Nat.succ_pos k)).1]
      rfl
    · have later : run.pull (k + 1) = run'.pull k := congrArg (fun pair => Run.pull pair.2 k) given
      rw [later, values_of_next? given, ih run', List.getElem?_cons_succ]

end Run

/-- What is taken from a source comes to an end, after no more items than the source has bytes and
    failures.
    * Behind at most so many items, none of them the end of the input, there is nothing but the end of
      the input, always at the same place.
    * Where no token was looked at, a stream that has not ended first reads lines on which nothing is to
      be found, finitely many of them, and then answers.
    * Once a request was answered with the end of the input all are, whatever the source might still
      hold, and nothing more is taken from it.
    * An evaluation is a finite tree of calls, whatever the operators of the table take.  It takes the
      items from the front, at most one for each byte and failure and one more.
    * A run gives at most so many values, with the failure that ends it, and then nothing any more.
      Each value uses up at least one token. -/
theorem streams_and_runs_end (layout : Layout) (source : Source) :
    let s := TokenStream.ofSource layout source
    let bound := source.bytes.length + source.failures.length
    ∃ n last, n ≤ bound ∧ last.isLast = true ∧ s.queue.Spares n ∧
      (∀ k ≥ n, s.queue.get k = .ok last) ∧
      (∀ requests, (s.behind requests).Ready →
        ∃ s', Skips (s.behind requests) s' ∧ s'.Answers (s.behind requests).next) ∧
      (∀ requests, (∃ answer ∈ s.answers requests, answer.IsEnd) → ∀ unread others,
        let ended := { s.behind requests with unread := unread }
        ended.answers others = others.map (Request.answerAtEnd last) ∧
          (ended.behind others).unread = unread ∧
          (ended.behind others).consumed = ended.consumed) ∧
      (∀ (table : OperatorTable) (t : TokenStream) k, t.queue = s.queue.drop k →
        ∃ m ≤ bound + 1, table.Evaluates t (table.expression t) m ∧
          (table.expression t).2.queue = t.queue.drop m) ∧
      ∀ table,
        let run := Run.ofSource table layout source
        run.values.length ≤ bound ∧ (∀ k, run.pull k = run.values[k]?) ∧
          ∀ k v, run.pull k = some (.ok v) → ∃ j token, 1 ≤ j ∧
            (run.after k).stream.next.1 = .ok token ∧ token.isLast = false ∧
            (run.after (k + 1)).stream = (run.after k).stream.after j := by
  intro s bound
  have few : (itemsOfReads layout 1 source.reads).length ≤ bound := length_itemsOfReads_le layout source
  obtain ⟨last, isLast, spares, ends⟩ := spares_queue_of_source layout source
  refine ⟨_, last, few, isLast, spares, ends, fun requests ready => ready.exists_answers, ?_, ?_, ?_⟩
  · intro requests met unread others ended
    obtain ⟨found, here⟩ := exists_ended (s := s) (sound_of_idle rfl) met
    obtain rfl : found = last := s.eq_of_ended here spares ends
    obtain ⟨answers, _, looked, same⟩ := (here.more unread).behind others
    refine ⟨answers, ?_, ?_⟩ <;> rw [same]
  · intro table t k rest
    obtain ⟨m, evaluates⟩ := exists_evaluates table t
    refine ⟨m, ?_, evaluates, evaluates.takes.rest⟩
    have item : t.queue.get bound = .ok last := by
      rw [rest, Stream'.get_drop]
      exact ends _ (Nat.le_trans few (Nat.le_add_left bound k))
    exact evaluates.le_of_isLast item isLast
  · intro table run
    refine ⟨Nat.le_trans (Run.length_values_le isLast ends) few, run.pull_eq_getElem?_values,
      fun k v given => ?_⟩
    rw [Run.after_succ]
    exact Run.exists_token_of_value given

/-- The operator misses an operand, and the end of the input that tells so goes on for ever. -/
theorem stream_and_run_end_on_unfinished :
    let s := TokenStream.ofSource .linewise (.ofString "+ 1")
    ∃ last, last.isLast = true ∧
      (∀ unread, let ended := { s.behind [.take, .takeUnlessLast, .takeUnlessLast] with unread := unread }
        ended.answers [.look, .take] = [some (.ok last), some (.ok last)]) ∧
      (∃ m ≤ 4, basicTable.Evaluates s (basicTable.expression s) m) ∧
      (Run.ofSource basicTable .linewise (.ofString "+ 1")).values.length ≤ 3 := by
  intro s
  have bound : (Source.ofString "+ 1").bytes.length + (Source.ofString "+ 1").failures.length = 3 := by
    decide +kernel
  obtain ⟨n, last, _, isLast, _, _, _, ended, evaluates, run⟩ :=
    streams_and_runs_end .linewise (.ofString "+ 1")
  rw [bound] at evaluates run
  have met : ∃ answer ∈ s.answers [.take, .takeUnlessLast, .takeUnlessLast], answer.IsEnd :=
    ⟨none, List.mem_of_getElem? (show _ = some none from (rfl : _ = (_ : List Answer)[2]?)), .inl rfl⟩
  obtain ⟨m, few, tree, _⟩ := evaluates basicTable s 0 rfl
  exact ⟨last, isLast, fun unread => (ended _ met unread [.look, .take]).1, ⟨m, few, tree⟩,
    (run basicTable).1⟩

end

end Polish
