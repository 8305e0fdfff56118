import Polish.Proofs.StandardInput

/-! # Tables with more operators

A word that is no operator ends an evaluation.  So a table that knows more words, and gives the
operators of a smaller one their meaning, can make a difference only where the smaller table stops at an
unknown operator: whatever was given before stays, and without such a failure everything does.

* `Within` compares two tables, `IsUnknownOperator` is the one failure that may go away, and it does
  where the larger table `Resolves` it.
* `Within.outcome` says it of one value, `values_within` of a run: every value is kept or it is that
  failure.
* `Written.Continues` says it of what is written by one line and by all lines, and
  `evaluateOptions_continues` of the program.
* `evaluationResult` is what the evaluation of the program comes to, and `evaluateOptions_ends` how the
  program shows it.
* `larger_table_conserves` puts this together.
-/

namespace Polish

/-- Every operator of the table is an operator of the larger one. -/
def OperatorTable.Within (table larger : OperatorTable) : Prop :=
  ∀ symbol op, table.find? symbol = some op → larger.find? symbol = some op

def Failure.IsUnknownOperator (failure : Failure) : Prop :=
  ∃ d symbol, failure = .malformed d ∧ d.cause = .unknownOperator symbol

/-- The failure is about a word without an operator, and the table has one for it. -/
def OperatorTable.Resolves (table : OperatorTable) (failure : Failure) : Prop :=
  ∃ d symbol, failure = .malformed d ∧ d.cause = .unknownOperator symbol ∧ (table.find? symbol).isSome

theorem OperatorTable.Resolves.isUnknownOperator {table : OperatorTable} {failure : Failure}
    (resolves : table.Resolves failure) : failure.IsUnknownOperator := by
  obtain ⟨d, symbol, same, cause, _⟩ := resolves
  exact ⟨d, symbol, same, cause⟩

theorem Failure.IsUnknownOperator.mapDiagnostic {failure : Failure} {f : Diagnostic → Diagnostic}
    (unknown : failure.IsUnknownOperator) (kept : ∀ d, (f d).cause = d.cause) :
    (failure.mapDiagnostic f).IsUnknownOperator := by
  obtain ⟨d, symbol, rfl, cause⟩ := unknown
  exact ⟨f d, symbol, rfl, (kept d).trans cause⟩

/-! ## One value -/

namespace OperatorTable

variable {table larger : OperatorTable} {s : TokenStream} {n : Nat} {result : Except Failure (Option Float)}

theorem within_insert (within : table.Within larger) {op : Operator}
    (fresh : table.find? op.symbol = none) : table.Within (larger.insert op) := by
  intro symbol other found
  have differs : op.symbol ≠ symbol := by
    rintro rfl
    rw [fresh] at found
    cases found
  rw [find?_insert, if_neg differs]
  exact within symbol other found

theorem within_insertMany (within : table.Within larger) {ops : List Operator}
    (fresh : ∀ op ∈ ops, table.find? op.symbol = none) : table.Within (larger.insertMany ops) := by
  induction ops generalizing larger with
  | nil => exact within
  | cons op ops ih =>
    exact ih (within_insert within (fresh op List.mem_cons_self))
      fun other member => fresh other (List.mem_cons_of_mem op member)

namespace Within

theorem node? (within : table.Within larger) {item : Except Failure Token} {head : Head}
    (node : table.node? item = some head) : larger.node? item = some head := by
  obtain ⟨token, rfl⟩ := exists_token_of_node? (Option.isSome_of_eq_some node)
  cases kind : token.kind with
  | number v => simpa [OperatorTable.node?, head?, kind] using node
  | word =>
    simp only [OperatorTable.node?, head?, kind, Option.map_eq_some_iff] at node ⊢
    obtain ⟨op, found, same⟩ := node
    exact ⟨op, within _ op found, same⟩
  | ending reached => simp [OperatorTable.node?, head?, kind] at node

theorem map_node? (within : table.Within larger) {items : List (Except Failure Token)} {nodes : List Head}
    (reads : items.map table.node? = nodes.map some) : items.map larger.node? = nodes.map some := by
  induction items generalizing nodes with
  | nil => exact reads
  | cons item items ih =>
    cases nodes with
    | nil => cases reads
    | cons head nodes =>
      obtain ⟨first, others⟩ := List.cons.inj reads
      rw [List.map_cons, List.map_cons, within.node? first, ih others]

theorem reads (within : table.Within larger) {nodes : List Head} (reads : table.Reads s nodes) :
    larger.Reads s nodes :=
  within.map_node? reads

theorem failsAt (within : table.Within larger) (fails : table.FailsAt s n)
    (obstacle : larger.node? (s.after n).next.1 = none) : larger.FailsAt s n := by
  obtain ⟨nodes, rfl, reads⟩ := exists_reads fails.nodes
  refine ⟨nodes_of_reads (within.reads reads), obstacle, fun k le => ?_⟩
  rw [counter_of_reads (within.reads reads) le, ← counter_of_reads reads le]
  exact fails.waits k le

/-- The larger table refuses a token for the same cause, unless it is a word that only this table
    knows. -/
theorem refuses (within : table.Within larger) {token : Token} {cause : Cause}
    (item : (s.after n).next.1 = .ok token) (refuses : table.Refuses s token n cause) :
    larger.Refuses s token n cause ∨
      ∃ symbol, cause = .unknownOperator symbol ∧ (larger.find? symbol).isSome := by
  have ending {reached : Terminator} (kind : token.kind = .ending reached) :
      larger.node? (s.after n).next.1 = none := by
    simp [item, OperatorTable.node?, head?, kind]
  cases refuses with
  | second reads layout kind => exact .inl (.second (within.reads reads) layout kind)
  | unknown fails kind =>
    cases found : larger.find? token.lexeme with
    | none =>
      have obstacle : larger.node? (s.after n).next.1 = none := by
        simp [item, OperatorTable.node?, head?, kind, found]
      exact .inl (.unknown (within.failsAt fails obstacle) kind)
    | some op => exact .inr ⟨_, rfl, Option.isSome_of_eq_some found⟩
  | missing fails kind => exact .inl (.missing (within.failsAt fails (ending kind)) kind)
  | unfinished fails kind reads innermost =>
    exact .inl (.unfinished (within.failsAt fails (ending kind)) kind (within.map_node? reads) innermost)

theorem outcome (within : table.Within larger) (outcome : table.Outcome s n result) :
    larger.Outcome s n result ∨ ∃ failure, result = .error failure ∧ larger.Resolves failure := by
  cases outcome with
  | ended atEnd => exact .inl (.ended atEnd)
  | value reads layout => exact .inl (.value (within.reads reads) layout)
  | line reads layout item kind => exact .inl (.line (within.reads reads) layout item kind)
  | failure item nodes =>
    refine .inl (.failure item ?_)
    obtain fails | ⟨layout, tree, length, reads⟩ := nodes
    · exact .inl (within.failsAt fails (by rw [item]; rfl))
    · exact .inr ⟨layout, tree, length, within.reads reads⟩
  | refused item refuses =>
    obtain refuses | ⟨symbol, rfl, known⟩ := within.refuses item refuses
    · exact .inl (.refused item refuses)
    · exact .inr ⟨_, rfl, _, symbol, rfl, rfl, known⟩

end Within

end OperatorTable

theorem basicTable_within : basicTable.Within extendedTable := by
  have more : extendedTable = basicTable.insertMany (extendedOperators.drop basicOperators.length) := by
    rw [extendedTable, basicTable, OperatorTable.ofList, OperatorTable.ofList,
      ← OperatorTable.insertMany_append]
    rfl
  have fresh : (extendedOperators.drop basicOperators.length).all
      (fun op => (basicTable.find? op.symbol).isNone) = true := by decide +kernel
  rw [more]
  exact OperatorTable.within_insertMany (fun _ _ found => found) fun op member =>
    Option.isNone_iff_eq_none.1 (List.all_eq_true.1 fresh op member)

/-! ## Runs and reports -/

open OperatorTable

variable {table larger : OperatorTable}

/-- With the larger table a run gives the same, or it gives at least the values that come before an
    operator which only the larger one knows. -/
theorem values_within (within : table.Within larger) (s : TokenStream) :
    (⟨larger, s, false⟩ : Run).values = (⟨table, s, false⟩ : Run).values ∨
      ∃ vs failure, (⟨table, s, false⟩ : Run).values = delivery vs (some failure) ∧
        larger.Resolves failure ∧ vs.map .ok <+: (⟨larger, s, false⟩ : Run).values := by
  induction size : s.size using Nat.strongRecOn generalizing s with
  | ind size ih =>
    obtain ⟨n, result, outcome⟩ := exists_outcome table s
    obtain ⟨s₁, _, value, _, goesOn⟩ := nextValue_of_outcome outcome
    obtain outcome' | ⟨failure, rfl, resolves⟩ := within.outcome outcome
    · obtain ⟨s₁', _, value', _, goesOn'⟩ := nextValue_of_outcome outcome'
      obtain failure | _ | v := result
      · exact .inl (by rw [Run.values_of_failure value, Run.values_of_failure value'])
      · exact .inl (by rw [Run.values_of_end value, Run.values_of_end value'])
      · have less := size_nextValue_lt value
        obtain rfl := goesOn v rfl
        obtain rfl := goesOn' v rfl
        rw [Run.values_of_value value, Run.values_of_value value']
        obtain same | ⟨vs, failure, given, resolves, grows⟩ := ih _ (size ▸ less) _ rfl
        · exact .inl (congrArg _ same)
        · exact .inr ⟨v :: vs, failure, congrArg _ given, resolves,
            (List.prefix_cons_inj (Except.ok v)).2 grows⟩
    · exact .inr ⟨[], failure, Run.values_of_failure value, resolves, List.nil_prefix⟩

theorem Run.values_ofSource_within (within : table.Within larger) (layout : Layout) (source : Source) :
    let run := Run.ofSource table layout source
    let run' := Run.ofSource larger layout source
    run'.values = run.values ∨ ∃ vs failure, run.values = delivery vs (some failure) ∧
      larger.Resolves failure ∧ vs.map .ok <+: run'.values :=
  values_within within (.ofSource layout source)

/-! ## What is written -/

/-- The second one is the same, or it goes on where the first one ends with an unknown operator. -/
inductive Written.Continues (first : Written) : Written → Prop where
  | same {second : Written} (equal : second = first) : Continues first second
  | further {second : Written} {failure : Failure} (failed : first.result = .error failure)
      (unknown : failure.IsUnknownOperator)
      (grows : first.sink.content.toList <+: second.sink.content.toList) : Continues first second

/-- A report in a sink without a limit, its failures shown in a way that keeps their causes. -/
theorem continues_of_report (within : table.Within larger) (layout : Layout) (source : Source)
    {sink : Sink} (free : sink.Free) {f : Diagnostic → Diagnostic} (kept : ∀ d, (f d).cause = d.cause) :
    Written.Continues
      ⟨((Run.ofSource table layout source).report sink).result.mapError (.mapDiagnostic f),
        ((Run.ofSource table layout source).report sink).sink⟩
      ⟨((Run.ofSource larger layout source).report sink).result.mapError (.mapDiagnostic f),
        ((Run.ofSource larger layout source).report sink).sink⟩ := by
  obtain same | ⟨vs, failure, given, resolves, grows⟩ := Run.values_ofSource_within within layout source
  · obtain ⟨result, written⟩ := Run.report_congr same sink
    rw [result, written]
    exact .same rfl
  · obtain ⟨ws, final, given'⟩ := (Run.ofSource larger layout source).exists_delivery
    obtain ⟨result, content, _⟩ := Run.report_of_free given free
    obtain ⟨_, content', _⟩ := Run.report_of_free given' free
    have more : vs <+: ws := prefix_of_delivery (given' ▸ grows)
    refine .further (congrArg (Except.mapError _) result)
      (resolves.isUnknownOperator.mapDiagnostic kept) ?_
    rw [content, content']
    exact (List.prefix_append_right_inj _).2 (linesOf_mono more)

theorem evaluateFile_continues (within : table.Within larger) (name : String) (source : Source) :
    (evaluateFile table name source {}).Continues (evaluateFile larger name source {}) :=
  continues_of_report within .linewise source Sink.free_empty fun _ => rfl

theorem evaluateLine_continues (within : table.Within larger) (number : Nat) (line : List Char)
    {sink : Sink} (free : sink.Free) :
    (evaluateLine table number line sink).Continues (evaluateLine larger number line sink) :=
  continues_of_report within .freeform _ free fun _ => rfl

theorem evaluateLines_grows (table : OperatorTable) (number : Nat) {sink : Sink} (free : sink.Free)
    (lines : List (List UInt8)) :
    sink.content.toList <+: (evaluateLines table number sink (lines.map .ofBytes)).sink.content.toList := by
  obtain ⟨evaluated, final, course⟩ := exists_course table number lines
  rw [(course.evaluateLines_eq free).2]
  exact List.prefix_append _ _

/-- Whatever comes of a line, the others can only add to it. -/
theorem evaluateLines_grows_behind (table : OperatorTable) (number : Nat) {sink : Sink} (free : sink.Free)
    {read : Read} {line : List Char} (read_eq : read.outcome = .ok line) (lines : List (List UInt8)) :
    (evaluateLine table number line sink).sink.content.toList <+:
      (evaluateLines table number sink (read :: lines.map .ofBytes)).sink.content.toList := by
  cases result : (evaluateLine table number line sink).result with
  | error failure =>
    exact ⟨[], by rw [evaluateLines_cons_of_failure read_eq result, List.append_nil]⟩
  | ok count =>
    rw [evaluateLines_cons_of_count read_eq result]
    exact evaluateLines_grows table (number + 1) (evaluateLine_of_free table number line free).2.2 lines

theorem evaluateLines_continues (within : table.Within larger) (number : Nat) {sink : Sink}
    (free : sink.Free) (lines : List (List UInt8)) :
    (evaluateLines table number sink (lines.map .ofBytes)).Continues
      (evaluateLines larger number sink (lines.map .ofBytes)) := by
  induction lines generalizing number sink with
  | nil => exact .same rfl
  | cons bytes lines ih =>
    rw [List.map_cons]
    cases read : (Read.ofBytes bytes).outcome with
    | error message =>
      rw [evaluateLines_cons_of_error read, evaluateLines_cons_of_error read]
      exact .same rfl
    | ok line =>
      have alone := evaluateLine_continues within number line free
      have free₁ := (evaluateLine_of_free table number line free).2.2
      cases result : (evaluateLine table number line sink).result with
      | ok count =>
        rw [evaluateLines_cons_of_count read result]
        cases alone with
        | same equal =>
          rw [evaluateLines_cons_of_count read (equal ▸ result), equal]
          cases ih (number + 1) free₁ with
          | same equal => exact .same (by rw [equal])
          | further failed unknown grows => exact .further (by rw [failed]; rfl) unknown grows
        | further failed => cases result.symm.trans failed
      | error failure =>
        rw [evaluateLines_cons_of_failure read result]
        cases alone with
        | same equal =>
          rw [evaluateLines_cons_of_failure read (equal ▸ result), equal]
          exact .same rfl
        | further failed unknown grows =>
          cases result.symm.trans failed
          exact .further rfl unknown (grows.trans (evaluateLines_grows_behind larger number free read lines))

theorem evaluateInput_continues (options options' : Options) (within : options.table.Within options'.table)
    (path : String) (files : FileTree) :
    (evaluateInput options path files).Continues (evaluateInput options' path files) := by
  rw [evaluateInput, evaluateInput]
  cases files.read path with
  | error fault => exact .same rfl
  | ok source => exact evaluateFile_continues within path source

/-! ## The program -/

/-- What the evaluation comes to that the options ask for. -/
def evaluationResult (options : Options) (stdin : List UInt8) (files : FileTree) :
    Except Failure Nat :=
  match options.input, options.output with
  | none, _ => (evaluateLines options.table 1 {} (Source.reads [.data stdin])).result
  | some input, none => (evaluateInput options input files).result
  | some input, some output =>
    match files.create output with
    | .error fault => .error (openFailure output fault)
    | .ok (_, made) => (evaluateInput options input made).result

/-- How the program shows what an evaluation came to. -/
def Outcome.Ends (outcome : Outcome) : Except Failure Nat → Prop
  | .ok _ => outcome.status = 0 ∧ outcome.stderr = ""
  | .error failure => outcome.status = 1 ∧ outcome.stderr = failureLine failure

theorem Written.ends_toOutcome (written : Written) (files : FileTree) :
    (written.toOutcome files).Ends written.result := by
  cases result : written.result with
  | ok count => exact written.toOutcome_of_ok result files ▸ ⟨rfl, rfl⟩
  | error failure => exact written.toOutcome_of_error result files ▸ ⟨rfl, rfl⟩

theorem evaluateOptions_ends (options : Options) (stdin : List UInt8) (files : FileTree) :
    (evaluateOptions options stdin files).Ends (evaluationResult options stdin files) := by
  cases path : options.input with
  | none =>
    rw [evaluateOptions_of_no_input path, evaluationResult, path]
    exact Written.ends_toOutcome _ files
  | some path_ =>
    cases target : options.output with
    | none =>
      rw [evaluateOptions_of_input path target, evaluationResult, path, target]
      exact Written.ends_toOutcome _ files
    | some target_ =>
      cases created : files.create target_ with
      | error fault =>
        rw [evaluateOptions_of_fault path target created, evaluationResult, path, target]
        simp only [created]
        exact ⟨rfl, rfl⟩
      | ok made =>
        rw [evaluateOptions_of_created path target created, evaluationResult, path, target]
        simp only [created]
        have ends := Written.ends_toOutcome (evaluateInput options path_ made.2)
          (made.2.put made.1 (evaluateInput options path_ made.2).sink.content.toList)
        -- to show nothing on the standard output changes neither the status nor the error
        cases result : (evaluateInput options path_ made.2).result <;> rwa [result] at ends

/-- The second outcome is the same, or it shows more where the evaluation that the first one shows ends
    with an unknown operator. -/
structure Outcome.Continues (result : Except Failure Nat) (first second : Outcome) : Prop where
  grows : first.stdout.toList <+: second.stdout.toList
  same_or_unknown : second = first ∨
    ∃ failure : Failure, result = .error failure ∧ failure.IsUnknownOperator

theorem Written.Continues.toOutcome {first second : Written} (continues : first.Continues second)
    (files : FileTree) : (first.toOutcome files).Continues first.result (second.toOutcome files) := by
  cases continues with
  | same equal => exact equal ▸ ⟨List.prefix_rfl, .inl rfl⟩
  | further failed unknown grows =>
    rw [← first.stdout_toOutcome files, ← second.stdout_toOutcome files] at grows
    exact ⟨grows, .inr ⟨_, failed, unknown⟩⟩

theorem evaluateOptions_continues (options options' : Options)
    (within : options.table.Within options'.table) (input : options'.input = options.input)
    (output : options'.output = options.output) (stdin : List UInt8) (files : FileTree) :
    (evaluateOptions options stdin files).Continues (evaluationResult options stdin files)
      (evaluateOptions options' stdin files) := by
  cases path : options.input with
  | none =>
    rw [evaluateOptions_of_no_input path, evaluateOptions_of_no_input (input.trans path),
      evaluationResult, path, reads_data]
    exact (evaluateLines_continues within 1 Sink.free_empty _).toOutcome files
  | some path_ =>
    have alone := evaluateInput_continues options options' within path_
    cases target : options.output with
    | none =>
      rw [evaluateOptions_of_input path target,
        evaluateOptions_of_input (input.trans path) (output.trans target), evaluationResult, path, target]
      exact (alone files).toOutcome files
    | some target_ =>
      cases created : files.create target_ with
      | error fault =>
        rw [evaluateOptions_of_fault path target created,
          evaluateOptions_of_fault (input.trans path) (output.trans target) created]
        exact ⟨List.prefix_rfl, .inl rfl⟩
      | ok made =>
        rw [evaluateOptions_of_created path target created,
          evaluateOptions_of_created (input.trans path) (output.trans target) created,
          evaluationResult, path, target]
        simp only [created]
        refine ⟨List.prefix_rfl, ?_⟩
        cases alone made.2 with
        | same equal => exact .inl (by rw [equal])
        | further failed unknown _ => exact .inr ⟨_, failed, unknown⟩

/-- Take a table, and a larger one that gives each of its operators the same meaning.
    * Unless a run with the table ends with an unknown operator, the run with the larger one gives the
      same.  If it does, the runs agree on everything in front of that failure.
    * A report that succeeds with the table is the same with the larger one.
    * The extended table is larger than the basic one.  What the program writes with the extended table
      begins with all that it writes without, and unless the evaluation without ends at an unknown
      operator, everything is the same. -/
theorem larger_table_conserves {table larger : OperatorTable} (within : table.Within larger) :
    (∀ (layout : Layout) (source : Source),
      let run := Run.ofSource table layout source
      let run' := Run.ofSource larger layout source
      ((∀ failure : Failure, .error failure ∈ run.values → ¬ failure.IsUnknownOperator) →
        run'.values = run.values) ∧
      (∀ before failure behind, run.values = before ++ .error failure :: behind →
        failure.IsUnknownOperator → before <+: run'.values) ∧
      ∀ sink count, (run.report sink).result = .ok count →
        (run'.report sink).result = .ok count ∧ (run'.report sink).sink = (run.report sink).sink) ∧
    basicTable.Within extendedTable ∧
    ∀ (arguments arguments' : List String) (options : Options),
      Invocation.ofArguments arguments = .evaluate { options with extended := false } →
      Invocation.ofArguments arguments' = .evaluate { options with extended := true } →
      ∀ (stdin : List UInt8) (files : FileTree),
        let first := execute arguments stdin files
        let second := execute arguments' stdin files
        let result := evaluationResult { options with extended := false } stdin files
        first.stdout.toList <+: second.stdout.toList ∧
          (second = first ∨ ∃ failure : Failure, result = .error failure ∧ failure.IsUnknownOperator ∧
            first.status = 1 ∧ first.stderr = failureLine failure) := by
  refine ⟨fun layout source => ?_, basicTable_within, ?_⟩
  · intro run run'
    have compared := Run.values_ofSource_within within layout source
    refine ⟨fun known => ?_, fun before failure behind split unknown => ?_, fun sink count succeeds => ?_⟩
    · obtain same | ⟨vs, failure, given, resolves, _⟩ := compared
      · exact same
      · exact absurd resolves.isUnknownOperator (known failure (given ▸ error_mem_delivery.2 rfl))
    · obtain same | ⟨vs, last, given, _, grows⟩ := compared
      · rw [show run'.values = run.values from same, split]
        exact List.prefix_append _ _
      · obtain ⟨rfl, _⟩ := delivery_eq_append (given.symm.trans split)
        exact grows
    · obtain ⟨vs, given⟩ := Run.values_of_report succeeds
      obtain same | ⟨ws, failure, given', _⟩ := compared
      · obtain ⟨result, written⟩ := Run.report_congr (show run'.values = run.values from same) sink
        exact ⟨result.trans succeeds, written⟩
      · cases (delivery_eq_append (given.symm.trans given')).2.1
  · intro arguments arguments' options invoked invoked' stdin files first second result
    have continues := evaluateOptions_continues { options with extended := false }
      { options with extended := true } basicTable_within rfl rfl stdin files
    have first_eq : first = evaluateOptions { options with extended := false } stdin files := by
      simp only [first, execute, invoked]
    have second_eq : second = evaluateOptions { options with extended := true } stdin files := by
      simp only [second, execute, invoked']
    rw [first_eq, second_eq]
    refine ⟨continues.grows, continues.same_or_unknown.imp_right ?_⟩
    rintro ⟨failure, failed, unknown⟩
    have ends := evaluateOptions_ends { options with extended := false } stdin files
    rw [failed] at ends
    exact ⟨failure, failed, unknown, ends⟩

/-- The value in front of a root stays when roots are known. -/
theorem extended_table_keeps_value :
    basicTable.Within extendedTable ∧
      Invocation.ofArguments [] = .evaluate { extended := false } ∧
      Invocation.ofArguments ["-x"] = .evaluate { extended := true } ∧
      ∃ v d, (Run.ofSource basicTable .freeform (.ofString "7 sqrt 4")).values =
          [.ok v] ++ [.error (.malformed d)] ∧
        d.cause = .unknownOperator "sqrt" ∧
        [.ok v] <+: (Run.ofSource extendedTable .freeform (.ofString "7 sqrt 4")).values ∧
        (execute [] (Text.encode "7 sqrt 4".toList) ⟨[]⟩).stdout.toList <+:
          (execute ["-x"] (Text.encode "7 sqrt 4".toList) ⟨[]⟩).stdout.toList := by
  have bare : Invocation.ofArguments [] = .evaluate { extended := false } := by decide
  have extended : Invocation.ofArguments ["-x"] = .evaluate { extended := true } := by decide
  let start : TokenStream := .ofSource .freeform (.ofString "7 sqrt 4")
  obtain ⟨v, numeral⟩ : ∃ v, basicTable.node? start.next.1 = some (.number v) := ⟨_, rfl⟩
  have reads : basicTable.Reads start (Expression.number v).preorder := by
    rw [Expression.preorder]
    exact reads_cons.2 ⟨numeral, rfl⟩
  obtain ⟨_, _, value, _, same⟩ := nextValue_of_outcome (.value reads rfl)
  obtain rfl := same v rfl
  obtain ⟨word, item, kind, lexeme⟩ : ∃ word, ((start.after 1).after 0).next.1 = .ok word ∧
      word.kind = .word ∧ word.lexeme = "sqrt" := ⟨_, rfl, rfl, rfl⟩
  have fails : basicTable.FailsAt (start.after 1) 0 := by decide +kernel
  obtain ⟨_, _, refused, _⟩ := nextValue_of_outcome (.refused item (.unknown fails kind))
  have values : (Run.ofSource basicTable .freeform (.ofString "7 sqrt 4")).values = _ :=
    (Run.values_of_value value).trans (congrArg _ (Run.values_of_failure refused))
  obtain ⟨runs, larger, program⟩ := larger_table_conserves basicTable_within
  obtain ⟨_, before, _⟩ := runs .freeform (.ofString "7 sqrt 4")
  exact ⟨larger, bare, extended, v, _, values, by rw [← lexeme]; rfl,
    before [.ok v] _ [] values ⟨_, _, rfl, rfl⟩, (program [] ["-x"] {} bare extended _ _).1⟩

end Polish
