import Polish.FileTree

/-! # Trees that differ in one file

To put a file into a tree changes the node at its location and no other, provided that all the
directories above it are there; and they are wherever a path leads.

* `Rooted` says that the directories are there, and `rooted_of_resolve` that a path leads to no other
  locations.
* `Sets` compares the tree before with the tree after.  `sets_of_create` is what it means to create a
  file, and `Sets.put` to write it.
* `Sets.resolve`: a path leads to the same location in both trees, unless it goes on behind the file.
-/

namespace Polish

theorem Location.isUpward_of_isPrefix {above location : Location} (upward : location.isUpward = true)
    (le : above <+: location) : above.isUpward = true :=
  List.all_eq_true.2 fun name member => List.all_eq_true.1 upward name (le.subset member)

namespace FileTree

variable {tree made : FileTree} {location other next start : Location} {content : List UInt8}
  {path name : String} {names : List String} {fault : PathFault}

/-! ## Putting a file -/

theorem lookup_replace (nodes : List (Location × Node)) (location other : Location) (node : Node) :
    (nodes.map fun entry => if entry.1 = location then (location, node) else entry).lookup other =
      if other = location ∧ nodes.any (·.1 == location) then some node else nodes.lookup other := by
  induction nodes with
  | nil => simp
  | cons entry nodes ih =>
    obtain ⟨key, value⟩ := entry
    by_cases same : other = key
    · subst same
      by_cases here : other = location <;> simp [here]
    · have differs : (other == key) = false := beq_false_of_ne same
      by_cases here : key = location
      · subst here
        simp [List.lookup_cons, differs, ih, same]
      · have unlike : (key == location) = false := beq_false_of_ne here
        rw [List.map_cons, if_neg here, List.lookup_cons, differs, ih, List.any_cons, unlike, Bool.false_or,
          List.lookup_cons, differs]

theorem lookup_eq_none_of_any {nodes : List (Location × Node)}
    (unlisted : nodes.any (·.1 == location) = false) : nodes.lookup location = none := by
  rw [List.lookup_eq_none_iff]
  intro entry member
  have unlike := List.any_eq_false.1 unlisted entry member
  exact bne_iff_ne.2 fun same => unlike (beq_of_eq same.symm)

theorem lookup_put (tree : FileTree) (location other : Location) (content : List UInt8) :
    (tree.put location content).nodes.lookup other =
      if other = location then some (.file content) else tree.nodes.lookup other := by
  rw [put]
  split
  · next listed =>
    simp only [lookup_replace, listed, and_true]
  · next unlisted =>
    rw [Bool.not_eq_true] at unlisted
    rw [List.lookup_append]
    by_cases here : other = location
    · subst here
      simp [lookup_eq_none_of_any unlisted]
    · have differs : (other == location) = false := beq_false_of_ne here
      simp [List.lookup_cons, differs, here]

theorem any_put (tree : FileTree) (location other : Location) (content : List UInt8) :
    ((tree.put location content).nodes.any fun node => other.isPrefixOf node.1) =
      ((tree.nodes.any fun node => other.isPrefixOf node.1) || other.isPrefixOf location) := by
  rw [put]
  split
  · next listed =>
    have keys (entry : Location × Node) :
        (if entry.1 = location then (location, Node.file content) else entry).1 = entry.1 := by
      split
      · next same => exact same.symm
      · rfl
    obtain ⟨entry, member, same⟩ := List.any_eq_true.1 listed
    have inside : other.isPrefixOf location = true →
        (tree.nodes.any fun node => other.isPrefixOf node.1) = true := fun le =>
      List.any_eq_true.2 ⟨entry, member, by rwa [eq_of_beq same]⟩
    simp only [List.any_map, Function.comp_def, keys]
    cases le : other.isPrefixOf location with
    | false => rw [Bool.or_false]
    | true => rw [inside le, Bool.or_true]
  · simp

/-- The directories above the location are there. -/
def Rooted (tree : FileTree) (location : Location) : Prop :=
  ∀ above, above <+: location → above ≠ location → tree.node? above ≠ none

theorem node?_of_isUpward (upward : location.isUpward = true) : tree.node? location = some .directory := by
  rw [node?, if_pos upward]

theorem node?_put_self (below : location.isUpward = false) :
    (tree.put location content).node? location = some (.file content) := by
  rw [node?, if_neg (by simp [below]), lookup_put, if_pos rfl]

theorem node?_put_of_ne (rooted : tree.Rooted location) (differs : other ≠ location) :
    (tree.put location content).node? other = tree.node? other := by
  by_cases upward : other.isUpward = true
  · rw [node?_of_isUpward upward, node?_of_isUpward upward]
  have there : other <+: location → tree.node? other ≠ none := fun above => rooted other above differs
  rw [node?, if_neg upward] at there ⊢
  rw [node?, if_neg upward, lookup_put, if_neg differs, any_put]
  cases listed : tree.nodes.lookup other with
  | some node => rfl
  | none =>
    -- the new file lies below the other location only where something did before
    cases above : other.isPrefixOf location with
    | false => rw [Bool.or_false]
    | true =>
      have known := there (List.isPrefixOf_iff_prefix.1 above)
      rw [listed] at known
      cases inside : tree.nodes.any fun node => other.isPrefixOf node.1 with
      | true => rfl
      | false => simp [inside] at known

/-! ## Where a path leads -/

theorem step_of_none (nothing : tree.node? location = none) (name : String) :
    tree.step location name = .error .missing := by
  rw [step, nothing]

theorem step_of_file (file : tree.node? location = some (.file content)) (name : String) :
    tree.step location name = .error .notDirectory := by
  rw [step, file]

theorem step_eq_ok (stepped : tree.step location name = .ok next) :
    tree.node? location = some .directory ∧
      (next = location ∨ next = location.parent ∨ next = location ++ [name]) := by
  rw [step] at stepped
  split at stepped
  · cases stepped
  · cases stepped
  · next directory =>
    refine ⟨directory, ?_⟩
    split at stepped
    · cases stepped
      exact .inl rfl
    · split at stepped
      · cases stepped
        exact .inr (.inl rfl)
      · split at stepped
        · cases stepped
        · cases stepped
          exact .inr (.inr rfl)

theorem Rooted.parent (rooted : tree.Rooted location) : tree.Rooted location.parent := by
  rw [Location.parent]
  split
  · exact rooted
  · split
    · next upward =>
      intro above le _
      have upward' : Location.isUpward (".." :: location) = true := by
        rw [Location.isUpward, List.all_cons]
        exact Bool.and_eq_true_iff.2 ⟨by decide, upward⟩
      rw [node?_of_isUpward (Location.isUpward_of_isPrefix upward' le)]
      exact Option.some_ne_none _
    · intro above le differs
      refine rooted above (le.trans location.dropLast_prefix) ?_
      rintro rfl
      exact differs (le.eq_of_length_le (by rw [List.length_dropLast]; omega))

theorem rooted_step (rooted : tree.Rooted location) (stepped : tree.step location name = .ok next) :
    tree.Rooted next := by
  obtain ⟨directory, rfl | rfl | rfl⟩ := step_eq_ok stepped
  · exact rooted
  · exact rooted.parent
  · intro above le differs
    obtain same | inside := List.prefix_concat_iff.1 le
    · exact absurd same differs
    · by_cases here : above = location
      · rw [here, directory]
        exact Option.some_ne_none _
      · exact rooted above inside here

theorem walk_of_ok (stepped : tree.step location name = .ok next) :
    (name :: names).foldlM tree.step location = names.foldlM tree.step next := by
  rw [List.foldlM_cons, stepped]
  rfl

theorem walk_of_error (stepped : tree.step location name = .error fault) :
    (name :: names).foldlM tree.step location = .error fault := by
  rw [List.foldlM_cons, stepped]
  rfl

theorem rooted_walk (rooted : tree.Rooted start) (walked : names.foldlM tree.step start = .ok location) :
    tree.Rooted location := by
  induction names generalizing start with
  | nil =>
    cases walked
    exact rooted
  | cons name names ih =>
    cases stepped : tree.step start name with
    | error fault =>
      rw [walk_of_error stepped] at walked
      cases walked
    | ok next =>
      rw [walk_of_ok stepped] at walked
      exact ih (rooted_step rooted stepped) walked

theorem target_of_error (failed : tree.resolve path = .error fault) : tree.target path = .error fault := by
  rw [target, failed]

/-- A path leads only to where the directories above are there. -/
theorem rooted_of_resolve (resolved : tree.resolve path = .ok location) : tree.Rooted location := by
  rw [resolve] at resolved
  split at resolved
  · cases resolved
  · refine rooted_walk ?_ resolved
    intro above le _
    have upward : Location.isUpward (if decide (path.toList.head? = some '/') then ["/"] else []) = true := by
      split <;> decide
    rw [node?_of_isUpward (Location.isUpward_of_isPrefix upward le)]
    exact Option.some_ne_none _

/-! ## Two trees -/

/-- The second tree is the first one with a file of that content at the location. -/
structure Sets (tree : FileTree) (location : Location) (content : List UInt8) (made : FileTree) : Prop where
  here : made.node? location = some (.file content)
  elsewhere : ∀ other, other ≠ location → made.node? other = tree.node? other

theorem create_eq_ok (created : tree.create path = .ok (location, made)) :
    tree.resolve path = .ok location ∧ tree.node? location ≠ some .directory ∧
      made = tree.put location [] := by
  rw [create] at created
  split at created
  · cases created
  · split at created
    · split at created <;> cases created
    · split at created
      · cases created
      · next resolved =>
        split at created
        · cases created
        · next other =>
          cases created
          exact ⟨resolved, other, rfl⟩

theorem isUpward_of_node?_ne (noDirectory : tree.node? location ≠ some .directory) :
    location.isUpward = false :=
  Bool.eq_false_iff.2 fun upward => noDirectory (node?_of_isUpward upward)

/-- To create a file changes no other node. -/
theorem sets_of_create (created : tree.create path = .ok (location, made)) :
    tree.Sets location [] made := by
  obtain ⟨resolved, noDirectory, rfl⟩ := create_eq_ok created
  exact ⟨node?_put_self (isUpward_of_node?_ne noDirectory),
    fun _ => node?_put_of_ne (rooted_of_resolve resolved)⟩

namespace Sets

/-- Neither does it to write what is to be in it. -/
theorem put (sets : tree.Sets location content made) (rooted : tree.Rooted location)
    (noDirectory : tree.node? location ≠ some .directory) (written : List UInt8) :
    tree.Sets location written (made.put location written) := by
  have rooted' : made.Rooted location := fun above le differs => by
    rw [sets.elsewhere above differs]
    exact rooted above le differs
  exact ⟨node?_put_self (isUpward_of_node?_ne noDirectory), fun other differs =>
    (node?_put_of_ne rooted' differs).trans (sets.elsewhere other differs)⟩

end Sets

/-- The names lead to the location and go on behind it. -/
def GoesOn (tree : FileTree) (start location : Location) (names : List String) : Prop :=
  ∃ before name behind, names = before ++ name :: behind ∧ before.foldlM tree.step start = .ok location

theorem goesOn_cons_of_ok (differs : start ≠ location) (stepped : tree.step start name = .ok next) :
    tree.GoesOn start location (name :: names) ↔ tree.GoesOn next location names := by
  constructor
  · rintro ⟨before, last, behind, split, walked⟩
    cases before with
    | nil =>
      cases walked
      contradiction
    | cons first before =>
      obtain ⟨rfl, rfl⟩ := List.cons.inj split
      exact ⟨before, last, behind, rfl, (walk_of_ok stepped).symm.trans walked⟩
  · rintro ⟨before, last, behind, rfl, walked⟩
    exact ⟨name :: before, last, behind, rfl, (walk_of_ok stepped).trans walked⟩

/-- The path goes on behind the location, as if a directory was there. -/
def LeadsThrough (tree : FileTree) (path : String) (location : Location) : Prop :=
  path.utf8ByteSize ≤ longestPath ∧
    tree.GoesOn (if path.toList.head? = some '/' then ["/"] else []) location
      ((pathNames path.toList).map String.ofList)

namespace Sets

theorem step_of_ne (sets : tree.Sets location content made) (differs : start ≠ location) (name : String) :
    made.step start name = tree.step start name := by
  rw [step, step, sets.elsewhere start differs]

/-- Where names go on behind the file they lead nowhere. -/
theorem walk_of_goesOn (sets : tree.Sets location content made)
    (noDirectory : tree.node? location ≠ some .directory) (goesOn : tree.GoesOn start location names) :
    names.foldlM made.step start = .error .notDirectory ∧
      (tree.node? location = none → names.foldlM tree.step start = .error .missing) ∧
      ∀ held, tree.node? location = some (.file held) →
        names.foldlM tree.step start = .error .notDirectory := by
  obtain ⟨before, name, behind, rfl, walked⟩ := goesOn
  induction before generalizing start with
  | nil =>
    cases walked
    exact ⟨walk_of_error (step_of_file sets.here name),
      fun nothing => walk_of_error (step_of_none nothing name),
      fun held file => walk_of_error (step_of_file file name)⟩
  | cons first before ih =>
    cases stepped : tree.step start first with
    | error fault =>
      rw [walk_of_error stepped] at walked
      cases walked
    | ok next =>
      have differs : start ≠ location := by
        rintro rfl
        exact noDirectory (step_eq_ok stepped).1
      rw [List.cons_append, walk_of_ok stepped,
        walk_of_ok ((sets.step_of_ne differs first).trans stepped)]
      rw [walk_of_ok stepped] at walked
      exact ih walked

/-- Other names lead to the same location in both trees. -/
theorem walk_of_not_goesOn (sets : tree.Sets location content made)
    (stays : ¬ tree.GoesOn start location names) :
    names.foldlM made.step start = names.foldlM tree.step start := by
  induction names generalizing start with
  | nil => rfl
  | cons name names ih =>
    have differs : start ≠ location := by
      rintro rfl
      exact stays ⟨[], name, names, rfl, rfl⟩
    cases stepped : tree.step start name with
    | error fault =>
      rw [walk_of_error stepped, walk_of_error ((sets.step_of_ne differs name).trans stepped)]
    | ok next =>
      rw [walk_of_ok stepped, walk_of_ok ((sets.step_of_ne differs name).trans stepped)]
      exact ih (mt (goesOn_cons_of_ok differs stepped).2 stays)

theorem resolve_of_leadsThrough (sets : tree.Sets location content made)
    (noDirectory : tree.node? location ≠ some .directory) (through : tree.LeadsThrough path location) :
    made.resolve path = .error .notDirectory ∧
      (tree.node? location = none → tree.resolve path = .error .missing) ∧
      ∀ held, tree.node? location = some (.file held) → tree.resolve path = .error .notDirectory := by
  obtain ⟨short, goesOn⟩ := through
  have walks := sets.walk_of_goesOn noDirectory goesOn
  rw [resolve, resolve, if_neg (Nat.not_lt_of_le short), if_neg (Nat.not_lt_of_le short), follow, follow]
  simpa using walks

theorem resolve_of_not_leadsThrough (sets : tree.Sets location content made)
    (stays : ¬ tree.LeadsThrough path location) : made.resolve path = tree.resolve path := by
  rw [resolve, resolve]
  split
  · rfl
  · next short =>
    have walks := sets.walk_of_not_goesOn fun goesOn => stays ⟨Nat.le_of_not_lt short, goesOn⟩
    rw [follow, follow]
    simpa using walks

/-- A path leads to the same location in both trees, unless it goes on behind a file that is new. -/
theorem resolve_eq (sets : tree.Sets location content made)
    (noDirectory : tree.node? location ≠ some .directory)
    (stays : ¬ (tree.LeadsThrough path location ∧ tree.node? location = none)) :
    made.resolve path = tree.resolve path := by
  by_cases through : tree.LeadsThrough path location
  · obtain ⟨after, _, before⟩ := sets.resolve_of_leadsThrough noDirectory through
    cases held : tree.node? location with
    | none => exact absurd ⟨through, held⟩ stays
    | some node =>
      cases node with
      | directory => exact absurd held noDirectory
      | file content => rw [after, before content held]
  · exact sets.resolve_of_not_leadsThrough through

theorem resolve_of_resolve (sets : tree.Sets location content made)
    (noDirectory : tree.node? location ≠ some .directory) (resolved : tree.resolve path = .ok other) :
    made.resolve path = .ok other := by
  rw [sets.resolve_eq noDirectory, resolved]
  rintro ⟨through, nothing⟩
  rw [(sets.resolve_of_leadsThrough noDirectory through).2.1 nothing] at resolved
  cases resolved

theorem target_of_resolve (sets : tree.Sets location content made)
    (noDirectory : tree.node? location ≠ some .directory) (resolved : tree.resolve path = .ok location) :
    made.target path = .ok (.file content) := by
  rw [target, sets.resolve_of_resolve noDirectory resolved]
  simp only [sets.here]

/-- A path to another location names the same as before. -/
theorem target_eq (sets : tree.Sets location content made)
    (same : made.resolve path = tree.resolve path) (differs : tree.resolve path ≠ .ok location) :
    made.target path = tree.target path := by
  rw [target, target, same]
  cases resolved : tree.resolve path with
  | error fault => rfl
  | ok other =>
    have elsewhere := sets.elsewhere other fun here => differs (here ▸ resolved)
    simp only [elsewhere]

end Sets

end FileTree

end Polish
