import Polish.Proofs.Queue
import Polish.Proofs.ValueOutcome

/-! # Tables that agree on a stream

A run asks its table for the words of its stream and for nothing else.  So two tables that make the same
of every item give the same values.

* `Agree` compares two tables on the items of a stream.
* `Agree.outcome`: they come to the same outcome for one value.
* `values_of_agree`: and so for all values of a run.
-/

namespace Polish

namespace OperatorTable

variable {table other : OperatorTable} {s : TokenStream} {n : Nat}
  {result : Except Failure (Option Float)}

/-- Both tables make the same node of every item that the stream still gives. -/
def Agree (table other : OperatorTable) (s : TokenStream) : Prop :=
  ∀ k, other.node? (s.queue.get k) = table.node? (s.queue.get k)

namespace Agree

theorem after (agree : table.Agree other s) (n : Nat) : table.Agree other (s.after n) := by
  intro k
  have later := agree (n + k)
  rwa [Stream'.get, TokenStream.queue, TokenStream.after_add] at later

theorem node?_eq (agree : table.Agree other s) {item : Except Failure Token}
    (member : item ∈ s.results n) : other.node? item = table.node? item := by
  obtain ⟨k, _, rfl⟩ := TokenStream.exists_of_mem_results member
  exact agree k

theorem map_node? (agree : table.Agree other s) (n : Nat) :
    (s.results n).map other.node? = (s.results n).map table.node? :=
  List.map_congr_left fun _ => agree.node?_eq

theorem reads (agree : table.Agree other s) {nodes : List Head} (reads : table.Reads s nodes) :
    other.Reads s nodes :=
  (agree.map_node? nodes.length).trans reads

theorem counter_eq (agree : table.Agree other s) (n : Nat) :
    other.counter (s.results n) = table.counter (s.results n) := by
  rw [counter, counter, List.filterMap_congr fun _ => agree.node?_eq]

theorem failsAt (agree : table.Agree other s) (fails : table.FailsAt s n) : other.FailsAt s n where
  nodes item member := by
    rw [agree.node?_eq member]
    exact fails.nodes item member
  obstacle := (agree n).trans fails.obstacle
  waits k le := by
    rw [agree.counter_eq]
    exact fails.waits k le

theorem refuses (agree : table.Agree other s) {token : Token} {cause : Cause}
    (refuses : table.Refuses s token n cause) : other.Refuses s token n cause := by
  cases refuses with
  | second reads layout kind => exact .second (agree.reads reads) layout kind
  | unknown fails kind => exact .unknown (agree.failsAt fails) kind
  | missing fails kind => exact .missing (agree.failsAt fails) kind
  | unfinished fails kind reads innermost =>
    exact .unfinished (agree.failsAt fails) kind ((agree.map_node? _).trans reads) innermost

theorem outcome (agree : table.Agree other s) (outcome : table.Outcome s n result) :
    other.Outcome s n result := by
  cases outcome with
  | ended atEnd => exact .ended atEnd
  | value reads layout => exact .value (agree.reads reads) layout
  | line reads layout item kind => exact .line (agree.reads reads) layout item kind
  | refused item refuses => exact .refused item (agree.refuses refuses)
  | failure item nodes =>
    refine .failure item ?_
    obtain fails | ⟨layout, tree, length, reads⟩ := nodes
    · exact .inl (agree.failsAt fails)
    · exact .inr ⟨layout, tree, length, agree.reads reads⟩

end Agree

/-- Tables that agree on the items of a stream give the same values. -/
theorem values_of_agree (agree : table.Agree other s) :
    (⟨other, s, false⟩ : Run).values = (⟨table, s, false⟩ : Run).values := by
  induction size : s.size using Nat.strongRecOn generalizing s with
  | ind size ih =>
    obtain ⟨n, result, outcome⟩ := exists_outcome table s
    obtain ⟨s₁, _, value, _, goesOn⟩ := nextValue_of_outcome outcome
    obtain ⟨s₂, _, value', _, goesOn'⟩ := nextValue_of_outcome (agree.outcome outcome)
    obtain failure | _ | v := result
    · rw [Run.values_of_failure value, Run.values_of_failure value']
    · rw [Run.values_of_end value, Run.values_of_end value']
    · have less := size_nextValue_lt value
      obtain rfl := goesOn v rfl
      obtain rfl := goesOn' v rfl
      rw [Run.values_of_value value, Run.values_of_value value', ih _ (size ▸ less) (agree.after n) rfl]

end OperatorTable

end Polish
