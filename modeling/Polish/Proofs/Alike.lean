import Polish.Proofs.ValueOutcome

/-! # Streams that differ in what their diagnostics show

A run sees of a token only its kind and its lexeme; the place of a token and the line that is held are
there for diagnostics.  Streams that are the same but for these give the same values, and their
failures are as much alike as the diagnostics are.

* `Alike` compares what two streams give in one step, `StepsAlike` what they give in all their steps.
* `Outcome.alike`: the outcome of a value is told by what `Alike` compares.
* `values_alike` says it for whole runs.
-/

namespace Polish

variable {related : Diagnostic → Diagnostic → Prop}

inductive Failure.Alike (related : Diagnostic → Diagnostic → Prop) : Failure → Failure → Prop where
  | malformed {d d' : Diagnostic} (alike : related d d') : Alike related (.malformed d) (.malformed d')
  | io (message : String) : Alike related (.io message) (.io message)
  | mismatch (mismatch : ArityMismatch) : Alike related (.mismatch mismatch) (.mismatch mismatch)

/-- Results that are the same, or failures that are alike. -/
inductive ResultAlike (related : Diagnostic → Diagnostic → Prop) {α : Type} :
    Except Failure α → Except Failure α → Prop where
  | error {failure failure' : Failure} (alike : failure.Alike related failure') :
      ResultAlike related (.error failure) (.error failure')
  | ok (v : α) : ResultAlike related (.ok v) (.ok v)

namespace TokenStream

/-- What two streams give in one step, with the streams behind it: failures that are alike, or tokens
    that differ in nothing but their places, such that any diagnostic about them would be alike. -/
inductive Alike (related : Diagnostic → Diagnostic → Prop) :
    Except Failure Token × TokenStream → Except Failure Token × TokenStream → Prop where
  | error {failure failure' : Failure} {s s' : TokenStream} (alike : failure.Alike related failure') :
      Alike related (.error failure, s) (.error failure', s')
  | ok {token token' : Token} {s s' : TokenStream} (kind : token'.kind = token.kind)
      (lexeme : token'.lexeme = token.lexeme)
      (shown : ∀ cause, related (s.diagnose cause token.place) (s'.diagnose cause token'.place)) :
      Alike related (.ok token, s) (.ok token', s')

structure StepsAlike (related : Diagnostic → Diagnostic → Prop) (s s' : TokenStream) : Prop where
  layout : s'.layout = s.layout
  alike : ∀ n, Alike related (s.after n).next (s'.after n).next

variable {s s' : TokenStream} {n : Nat}

theorem StepsAlike.after (steps : StepsAlike related s s') (n : Nat) :
    StepsAlike related (s.after n) (s'.after n) where
  layout := by rw [layout_after, layout_after, steps.layout]
  alike m := by
    rw [← after_add, ← after_add]
    exact steps.alike (n + m)

theorem StepsAlike.exists_token (steps : StepsAlike related s s') {token : Token}
    (item : (s.after n).next.1 = .ok token) :
    ∃ token', (s'.after n).next.1 = .ok token' ∧ token'.kind = token.kind ∧
      token'.lexeme = token.lexeme ∧ ∀ cause, related ((s.after (n + 1)).diagnose cause token.place)
        ((s'.after (n + 1)).diagnose cause token'.place) := by
  have alike := steps.alike n
  rw [after_succ, after_succ]
  generalize (s.after n).next = result at item alike
  generalize (s'.after n).next = result' at alike
  cases alike with
  | error => cases item
  | ok kind lexeme shown =>
    cases item
    exact ⟨_, rfl, kind, lexeme, shown⟩

theorem StepsAlike.exists_failure (steps : StepsAlike related s s') {failure : Failure}
    (item : (s.after n).next.1 = .error failure) :
    ∃ failure', (s'.after n).next.1 = .error failure' ∧ failure.Alike related failure' := by
  have alike := steps.alike n
  generalize (s.after n).next = result at item alike
  generalize (s'.after n).next = result' at alike
  cases alike with
  | error alike =>
    cases item
    exact ⟨_, rfl, alike⟩
  | ok => cases item

theorem StepsAlike.atEnd (steps : StepsAlike related s s') (atEnd : s.AtEnd) : s'.AtEnd := by
  obtain ⟨token, item, last⟩ := atEnd
  obtain ⟨token', item', kind, _⟩ := steps.exists_token (n := 0) item
  exact ⟨token', item', by rwa [Token.isLast, kind]⟩

end TokenStream

namespace OperatorTable

open TokenStream

variable {table : OperatorTable} {s s' : TokenStream} {n : Nat}

theorem node?_of_alike {result result' : Except Failure Token × TokenStream}
    (alike : Alike related result result') : table.node? result'.1 = table.node? result.1 := by
  cases alike with
  | error => rfl
  | ok kind lexeme => simp only [node?, head?, kind, lexeme]

theorem map_node?_of_alike (table : OperatorTable) (steps : StepsAlike related s s') (n : Nat) :
    (s'.results n).map table.node? = (s.results n).map table.node? := by
  induction n with
  | zero => rfl
  | succ n ih =>
    rw [results_succ, results_succ, List.map_append, List.map_append, ih, List.map_singleton,
      List.map_singleton, node?_of_alike (steps.alike n)]

theorem Reads.alike {nodes : List Head} (reads : table.Reads s nodes)
    (steps : StepsAlike related s s') : table.Reads s' nodes := by
  rw [Reads, map_node?_of_alike table steps]
  exact reads

theorem counter_of_alike (steps : StepsAlike related s s') (n : Nat) :
    table.counter (s'.results n) = table.counter (s.results n) := by
  have nodes := congrArg (List.filterMap id) (map_node?_of_alike table steps n)
  rw [List.filterMap_map, List.filterMap_map, Function.id_comp] at nodes
  rw [counter, counter, nodes]

theorem FailsAt.alike (fails : table.FailsAt s n) (steps : StepsAlike related s s') :
    table.FailsAt s' n where
  nodes := by
    obtain ⟨heads, rfl, reads⟩ := exists_reads fails.nodes
    exact nodes_of_reads (reads.alike steps)
  obstacle := (node?_of_alike (steps.alike n)).trans fails.obstacle
  waits k le := by
    rw [counter_of_alike steps]
    exact fails.waits k le

theorem Refuses.alike {token token' : Token} {cause : Cause} (refuses : table.Refuses s token n cause)
    (steps : StepsAlike related s s') (kind : token'.kind = token.kind)
    (lexeme : token'.lexeme = token.lexeme) : table.Refuses s' token' n cause := by
  cases refuses with
  | second reads layout other =>
    rw [← lexeme]
    exact .second (reads.alike steps) (steps.layout.trans layout) fun reached same =>
      other reached (kind.symm.trans same)
  | unknown fails word =>
    rw [← lexeme]
    exact .unknown (fails.alike steps) (kind.trans word)
  | missing fails ending => exact .missing (fails.alike steps) (kind.trans ending)
  | unfinished fails ending reads innermost =>
    exact .unfinished (fails.alike steps) (kind.trans ending)
      ((map_node?_of_alike table steps n).trans reads) innermost

/-- Streams that give alike items have alike outcomes, of as many items. -/
theorem Outcome.alike {result : Except Failure (Option Float)} (outcome : table.Outcome s n result)
    (steps : StepsAlike related s s') :
    ∃ result', table.Outcome s' n result' ∧ ResultAlike related result result' := by
  cases outcome with
  | ended atEnd => exact ⟨_, .ended (steps.atEnd atEnd), .ok _⟩
  | value reads layout => exact ⟨_, .value (reads.alike steps) (steps.layout.trans layout), .ok _⟩
  | line reads layout item kind =>
    obtain ⟨token', item', kind', _⟩ := steps.exists_token item
    exact ⟨_, .line (reads.alike steps) (steps.layout.trans layout) item' (kind'.trans kind), .ok _⟩
  | failure item nodes =>
    obtain ⟨failure', item', alike⟩ := steps.exists_failure item
    refine ⟨_, .failure item' ?_, .error alike⟩
    obtain fails | ⟨layout, tree, length, reads⟩ := nodes
    · exact .inl (fails.alike steps)
    · exact .inr ⟨steps.layout.trans layout, tree, length, reads.alike steps⟩
  | refused item refuses =>
    obtain ⟨token', item', kind, lexeme, shown⟩ := steps.exists_token item
    exact ⟨_, .refused item' (refuses.alike steps kind lexeme), .error (.malformed (shown _))⟩

end OperatorTable

/-! ## Whole runs -/

open TokenStream OperatorTable

variable {table : OperatorTable} {s s' : TokenStream}

/-- Streams that give alike items give the same values, and failures that are alike. -/
theorem values_alike (table : OperatorTable) (steps : StepsAlike related s s') :
    List.Forall₂ (ResultAlike related) (⟨table, s, false⟩ : Run).values
      (⟨table, s', false⟩ : Run).values := by
  induction size : s.size using Nat.strongRecOn generalizing s s' with
  | ind size ih =>
    obtain ⟨n, result, outcome⟩ := exists_outcome table s
    obtain ⟨result', outcome', alike⟩ := outcome.alike steps
    obtain ⟨s₁, _, value, _, goesOn⟩ := nextValue_of_outcome outcome
    obtain ⟨s₁', _, value', _, goesOn'⟩ := nextValue_of_outcome outcome'
    cases alike with
    | error alike =>
      rw [Run.values_of_failure value, Run.values_of_failure value']
      exact .cons (.error alike) .nil
    | ok given =>
      cases given with
      | none =>
        rw [Run.values_of_end value, Run.values_of_end value']
        exact .nil
      | some v =>
        have less := size_nextValue_lt value
        obtain rfl := goesOn v rfl
        obtain rfl := goesOn' v rfl
        rw [Run.values_of_value value, Run.values_of_value value']
        exact .cons (.ok v) (ih _ (size ▸ less) (steps.after n) rfl)

end Polish
