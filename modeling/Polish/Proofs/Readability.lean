import Polish.Expression

/-! # Reading trees off their nodes

The nodes of a tree in the order of the text tell the tree, although nothing marks where an
expression ends: the numbers of operands do.

* `missing` counts the expressions that are still to come: a node supplies one and asks for as many
  as it takes.
* `exists_forest`: when the count comes to zero, the nodes are those of as many trees as were missing.
* `exists_frames`: as long as it does not, they are those of complete trees and of operators that wait
  for operands, each inside the one before it.
* `forest_injective`: the nodes tell the trees, and `Innermost.unique`: they tell the operator that
  waits last.
-/

namespace Polish

def Head.arity : Head → Nat
  | .number _ => 0
  | .operator op => op.arity

/-- How many expressions are missing behind `nodes` when `m` were missing in front of them. -/
def missing (m : Int) : List Head → Int
  | [] => m
  | head :: nodes => missing (m + (head.arity - 1)) nodes

@[simp]
theorem missing_nil (m : Int) : missing m [] = m := rfl

theorem missing_cons {m : Nat} (some_missing : m ≠ 0) (head : Head) (nodes : List Head) :
    missing m (head :: nodes) = missing (m - 1 + head.arity : Nat) nodes := by
  have next : (m : Int) + (head.arity - 1) = ((m - 1 + head.arity : Nat) : Int) := by omega
  rw [missing, next]

def forest (trees : List Expression) : List Head :=
  trees.flatMap Expression.preorder

@[simp]
theorem forest_nil : forest [] = [] := rfl

@[simp]
theorem forest_cons (tree : Expression) (trees : List Expression) :
    forest (tree :: trees) = tree.preorder ++ forest trees :=
  List.flatMap_cons

@[simp]
theorem forest_append (first second : List Expression) :
    forest (first ++ second) = forest first ++ forest second :=
  List.flatMap_append

theorem preorder_apply (op : Operator) (operands : Operands op.arity) :
    (Expression.apply op operands).preorder = .operator op :: forest operands.toList := by
  rw [Expression.preorder, operands.preorder_eq_flatMap, forest]

/-! ## Complete nodes -/

theorem exists_tree (head : Head) (trees : List Expression) (enough : head.arity ≤ trees.length) :
    ∃ tree : Expression, forest (tree :: trees.drop head.arity) = head :: forest trees := by
  cases head with
  | number v => exact ⟨.number v, by simp [Expression.preorder, Head.arity]⟩
  | operator op =>
    obtain ⟨operands, same⟩ := Operands.exists_toList_eq
      (List.length_take_of_le (show op.arity ≤ trees.length from enough))
    refine ⟨.apply op operands, ?_⟩
    rw [forest_cons, preorder_apply, same, List.cons_append, ← forest_append, Head.arity,
      List.take_append_drop]

theorem exists_forest {m : Nat} {nodes : List Head} (complete : missing m nodes = 0)
    (waits : ∀ k < nodes.length, missing m (nodes.take k) ≠ 0) :
    ∃ trees, trees.length = m ∧ forest trees = nodes := by
  -- the trees behind the first node are there already: it takes the first of them as its operands
  induction nodes generalizing m with
  | nil =>
    have none_missing : m = 0 := by simpa using complete
    exact ⟨[], none_missing.symm, rfl⟩
  | cons head nodes ih =>
    have some_missing : m ≠ 0 := by simpa using waits 0 (Nat.succ_pos _)
    rw [missing_cons some_missing] at complete
    obtain ⟨trees, length, same⟩ := ih complete fun k less => by
      have := waits (k + 1) (Nat.succ_lt_succ less)
      rwa [List.take_succ_cons, missing_cons some_missing] at this
    obtain ⟨tree, grown⟩ := exists_tree head trees (by omega)
    refine ⟨tree :: trees.drop head.arity, ?_, by rw [grown, same]⟩
    rw [List.length_cons, List.length_drop]
    omega

/-! ## Incomplete nodes -/

/-- An operator with the operands that stand behind it, where some are missing. -/
structure Frame where
  operator : Operator
  operands : List Expression
  waits : operands.length < operator.arity

def Frame.nodes (frame : Frame) : List Head :=
  .operator frame.operator :: forest frame.operands

def Frame.values (frame : Frame) : Array Float :=
  (frame.operands.map Expression.value).toArray

@[simp]
theorem Frame.size_values (frame : Frame) : frame.values.size = frame.operands.length := by
  simp [values]

/-- Nodes behind which something is missing all the time are those of complete trees, fewer than were
    missing, and of operators that wait, each of them inside the one in front of it. -/
theorem exists_frames {m : Nat} {nodes : List Head}
    (waits : ∀ k ≤ nodes.length, missing m (nodes.take k) ≠ 0) :
    ∃ (trees : List Expression) (frames : List Frame),
      trees.length < m ∧ nodes = forest trees ++ frames.flatMap Frame.nodes := by
  induction nodes generalizing m with
  | nil =>
    have some_missing : m ≠ 0 := by simpa using waits 0 (Nat.le_refl _)
    exact ⟨[], [], Nat.pos_of_ne_zero some_missing, rfl⟩
  | cons head nodes ih =>
    have some_missing : m ≠ 0 := by simpa using waits 0 (Nat.zero_le _)
    obtain ⟨trees, frames, few, same⟩ := ih (m := m - 1 + head.arity) fun k le => by
      have := waits (k + 1) (Nat.succ_le_succ le)
      rwa [List.take_succ_cons, missing_cons some_missing] at this
    -- the trees in front of the frames are operands of this node: all that it takes, or too few
    by_cases enough : head.arity ≤ trees.length
    · obtain ⟨tree, grown⟩ := exists_tree head trees enough
      refine ⟨tree :: trees.drop head.arity, frames, ?_, ?_⟩
      · rw [List.length_cons, List.length_drop]
        omega
      · rw [grown, same, List.cons_append]
    · cases head with
      | number v => simp [Head.arity] at enough
      | operator op =>
        have lacks : trees.length < op.arity := Nat.lt_of_not_le enough
        refine ⟨[], ⟨op, trees, lacks⟩ :: frames, Nat.pos_of_ne_zero some_missing, ?_⟩
        rw [forest_nil, List.nil_append, List.flatMap_cons, Frame.nodes, same, List.cons_append]

/-! ## Unique readability -/

mutual

theorem Expression.eq_of_preorder_append {first second : Expression} {rest rest' : List Head}
    (same : first.preorder ++ rest = second.preorder ++ rest') : first = second ∧ rest = rest' := by
  match first, second with
  | .number v, .number w =>
    simp only [Expression.preorder, List.cons_append, List.nil_append, List.cons.injEq,
      Head.number.injEq] at same
    exact ⟨congrArg _ same.1, same.2⟩
  | .number v, .apply op operands | .apply op operands, .number v =>
    simp [Expression.preorder] at same
  | .apply op operands, .apply op' operands' =>
    simp only [Expression.preorder, List.cons_append, List.cons.injEq, Head.operator.injEq] at same
    -- with the operator the number of operands is the same, too
    obtain ⟨rfl, same⟩ := same
    obtain ⟨rfl, behind⟩ := Operands.eq_of_preorder_append same
    exact ⟨rfl, behind⟩

theorem Operands.eq_of_preorder_append {n : Nat} {first second : Operands n}
    {rest rest' : List Head} (same : first.preorder ++ rest = second.preorder ++ rest') :
    first = second ∧ rest = rest' := by
  match first, second with
  | .nil, .nil => exact ⟨rfl, by simpa [Operands.preorder] using same⟩
  | .cons x xs, .cons y ys =>
    simp only [Operands.preorder, List.append_assoc] at same
    obtain ⟨rfl, others⟩ := Expression.eq_of_preorder_append same
    obtain ⟨rfl, behind⟩ := Operands.eq_of_preorder_append others
    exact ⟨rfl, behind⟩

end

theorem Expression.preorder_injective {first second : Expression}
    (same : first.preorder = second.preorder) : first = second :=
  have same : first.preorder ++ [] = second.preorder ++ [] := by rw [same]
  (Expression.eq_of_preorder_append same).1

theorem forest_injective {first second : List Expression} (same : forest first = forest second) :
    first = second := by
  induction first generalizing second with
  | nil =>
    cases second with
    | nil => rfl
    | cons tree second => simp [tree.preorder_ne_nil] at same
  | cons tree first ih =>
    cases second with
    | nil => simp [tree.preorder_ne_nil] at same
    | cons tree' second =>
      obtain ⟨rfl, others⟩ := Expression.eq_of_preorder_append same
      rw [ih others]

theorem exists_forest_of_append {trees : List Expression} {before behind : List Head}
    (same : forest trees = before ++ behind) : ∃ others, behind = forest others := by
  -- without its first node a tree is its operands, which stand in front of the other trees
  induction before generalizing trees with
  | nil => exact ⟨trees, same.symm⟩
  | cons head before ih =>
    cases trees with
    | nil => simp at same
    | cons tree trees =>
      cases tree with
      | number v =>
        simp only [forest_cons, Expression.preorder, List.cons_append, List.nil_append,
          List.cons.injEq] at same
        exact ih same.2
      | apply op operands =>
        rw [forest_cons, preorder_apply, List.cons_append, List.cons_append, List.cons.injEq,
          ← forest_append] at same
        exact ih same.2

/-- An operator among the nodes of trees has all its operands. -/
theorem arity_le_of_forest {trees operands : List Expression} {before : List Head} {op : Operator}
    (same : forest trees = before ++ .operator op :: forest operands) :
    op.arity ≤ operands.length := by
  obtain ⟨others, split⟩ := exists_forest_of_append same
  cases others with
  | nil => simp at split
  | cons tree others =>
    cases tree with
    | number v => simp [Expression.preorder] at split
    | apply op' arguments =>
      rw [forest_cons, preorder_apply, List.cons_append, List.cons.injEq, Head.operator.injEq,
        ← forest_append] at split
      obtain ⟨rfl, split⟩ := split
      rw [forest_injective split, List.length_append, Operands.length_toList]
      exact Nat.le_add_right _ _

theorem eq_nil_of_operator_append {gap : List Head} {op op' : Operator}
    {operands operands' : List Expression} (lacks : operands'.length < op'.arity)
    (same : .operator op :: forest operands = gap ++ .operator op' :: forest operands') :
    gap = [] := by
  cases gap with
  | nil => rfl
  | cons head gap =>
    rw [List.cons_append, List.cons.injEq] at same
    exact absurd lacks (Nat.not_lt_of_le (arity_le_of_forest same.2))

/-! ## The operator that waits last -/

/-- The operator `op` is the last of `nodes` that lacks operands, and it has `found` of them: what
    stands behind it is that many trees, fewer than it takes. -/
def Innermost (nodes : List Head) (op : Operator) (found : Nat) : Prop :=
  ∃ before operands, nodes = before ++ .operator op :: forest operands ∧
    operands.length = found ∧ found < op.arity

theorem innermost_of_frames (frames : List Frame) (frame : Frame) :
    Innermost ((frames ++ [frame]).flatMap Frame.nodes) frame.operator frame.operands.length :=
  ⟨frames.flatMap Frame.nodes, frame.operands, by simp [Frame.nodes], rfl, frame.waits⟩

theorem Innermost.mem {nodes : List Head} {op : Operator} {found : Nat}
    (innermost : Innermost nodes op found) : .operator op ∈ nodes := by
  obtain ⟨before, operands, rfl, _⟩ := innermost
  exact List.mem_append_right _ List.mem_cons_self

theorem Innermost.ne_nil {nodes : List Head} {op : Operator} {found : Nat}
    (innermost : Innermost nodes op found) : nodes ≠ [] :=
  List.ne_nil_of_mem innermost.mem

/-- There is only one operator that waits last. -/
theorem Innermost.unique {nodes : List Head} {op op' : Operator} {found found' : Nat}
    (first : Innermost nodes op found) (second : Innermost nodes op' found') :
    op = op' ∧ found = found' := by
  obtain ⟨before, operands, rfl, rfl, lacks⟩ := first
  obtain ⟨before', operands', same, rfl, lacks'⟩ := second
  -- of two such operators one would stand among the operands of the other, and so lack none
  obtain ⟨gap, _, split⟩ | ⟨gap, _, split⟩ := List.append_eq_append_iff.1 same
  · obtain rfl := eq_nil_of_operator_append lacks' split
    simp only [List.nil_append, List.cons.injEq, Head.operator.injEq] at split
    exact ⟨split.1, congrArg _ (forest_injective split.2)⟩
  · obtain rfl := eq_nil_of_operator_append lacks split
    simp only [List.nil_append, List.cons.injEq, Head.operator.injEq] at split
    exact ⟨split.1.symm, congrArg _ (forest_injective split.2).symm⟩

end Polish
