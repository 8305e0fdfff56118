import Polish.Capacity
import Polish.Proofs.Bounds
import Polish.Proofs.Conservativity
import Polish.Proofs.Registration
import Polish.Proofs.SyntaxErrors

/-! # Evaluation with and without room

A machine that has not room for everything comes to what the evaluation means, or it says that it has no
room.  It evaluates with a part of the table, so that what is known of larger tables tells all but one
thing: a word that the part does not know may be unknown, or have an operator that finds no room.

* `not_resolves_of_expression` and `not_resolves_of_mem_values`: no evaluation fails at a word that its
  own table knows.
* `Within.expression`: one expression with a larger table.
* `settle_of_not_resolves` and `settle_of_resolves` tell the two kinds of unknown words apart.
* `expressionInRoom_cases`, `valuesInRoom_cases` and `reportInRoom_cases` compare the two evaluations.
* `HasRoom` says that every operator finds room.  Then there is no difference: `expressionInRoom_eq`,
  `valuesInRoom_eq` and `exists_reportInRoom_eq`.  `hasRoom_table`: this is so in the program.
* `Diagnostic.renderInRoom_eq_ok_iff`: the text of a diagnostic finds room exactly when its carets, and
  the blanks in front of them, are no more than `mostBytes`.  `hasRoom_of_mem_values`: the diagnostics of
  a run do when the lines of its source do.
-/

namespace Polish

theorem TokenStream.not_isUnknownOperator_of_next {s : TokenStream} {failure : Failure}
    (item : s.next.1 = .error failure) : ¬ failure.IsUnknownOperator := by
  rintro ⟨d, symbol, rfl, cause⟩
  obtain ⟨token, _, taken⟩ | ⟨_, _, taken⟩ | ⟨s', _, _, answers⟩ := s.next_cases
  · rw [taken] at item
    cases item
  · rw [taken] at item
    cases item
  · generalize s.next = result at answers item
    cases answers with
    | failed | ended => cases item
    | onLine answered =>
      -- of what stands on a line only a stray character is a failure
      obtain ⟨_, _, chars | c, _, _, same, _⟩ | ⟨_, _, same, _⟩ := onLine?_cases answered <;>
        rw [item] at same
      · cases same
      · cases same
        cases cause
      · cases same

namespace OperatorTable

variable {table larger : OperatorTable} {s : TokenStream} {n : Nat} {failure : Failure}

/-! ## The words of the own table -/

theorem FailsAt.find?_eq_none {token : Token} (fails : table.FailsAt s n)
    (item : (s.after n).next.1 = .ok token) (kind : token.kind = .word) :
    table.find? token.lexeme = none := by
  simpa [item, node?, head?, kind] using fails.obstacle

theorem not_resolves_of_expression (failed : (table.expression s).1 = .error failure) :
    ¬ table.Resolves failure := by
  rintro ⟨d, symbol, rfl, cause, known⟩
  obtain ⟨n, completes⟩ | ⟨n, fails⟩ := completes_or_fails table s
  · obtain ⟨tree, _, _, value⟩ := expression_of_completesAt completes
    rw [value] at failed
    cases failed
  obtain ⟨failure, item⟩ | ⟨token, item, kind⟩ | ⟨token, reached, item, kind⟩ :=
    cases_of_node?_eq_none fails.obstacle
  · rw [expression_of_failure_item fails item] at failed
    cases failed
    exact TokenStream.not_isUnknownOperator_of_next item ⟨d, symbol, rfl, cause⟩
  · rw [expression_of_unregistered fails item kind] at failed
    cases failed
    cases cause
    rw [fails.find?_eq_none item kind] at known
    contradiction
  · cases n with
    | zero =>
      rw [expression_of_ending (s := s) item kind] at failed
      cases failed
      cases cause
    | succ n =>
      obtain ⟨_, _, _, _, _, value⟩ := expression_of_ending_behind fails item kind (Nat.succ_ne_zero n)
      rw [value] at failed
      cases failed
      cases cause

theorem Outcome.not_resolves (outcome : table.Outcome s n (.error failure)) :
    ¬ table.Resolves failure := by
  rintro ⟨d, symbol, rfl, cause, known⟩
  cases outcome with
  | failure item nodes => exact TokenStream.not_isUnknownOperator_of_next item ⟨d, symbol, rfl, cause⟩
  | refused item refuses =>
    cases refuses with
    | second | missing | unfinished => cases cause
    | unknown fails kind =>
      cases cause
      rw [fails.find?_eq_none item kind] at known
      contradiction

theorem not_resolves_of_mem_values (member : .error failure ∈ (⟨table, s, false⟩ : Run).values) :
    ¬ table.Resolves failure := by
  induction size : s.size using Nat.strongRecOn generalizing s with
  | ind size ih =>
    obtain ⟨n, result, outcome⟩ := exists_outcome table s
    obtain ⟨s₁, _, value, _, _⟩ := nextValue_of_outcome outcome
    obtain other | _ | v := result
    · rw [Run.values_of_failure value] at member
      cases List.mem_singleton.1 member
      exact outcome.not_resolves
    · rw [Run.values_of_end value] at member
      contradiction
    · rw [Run.values_of_value value] at member
      obtain first | later := List.mem_cons.1 member
      · cases first
      · exact ih _ (size ▸ size_nextValue_lt value) later rfl

theorem not_resolves_of_delivery {layout : Layout} {source : Source} {vs : List Float}
    (given : (Run.ofSource table layout source).values = delivery vs (some failure)) :
    ¬ table.Resolves failure := by
  have member : .error failure ∈ (Run.ofSource table layout source).values :=
    given ▸ error_mem_delivery.2 rfl
  exact not_resolves_of_mem_values member

/-! ## One expression -/

/-- With the larger table an expression comes to the same, unless only that table knows the word at which
    it fails. -/
theorem Within.expression (within : table.Within larger) (s : TokenStream) :
    larger.expression s = table.expression s ∨
      ∃ failure, (table.expression s).1 = .error failure ∧ larger.Resolves failure := by
  obtain ⟨n, completes⟩ | ⟨n, fails⟩ := completes_or_fails table s
  · obtain ⟨tree, rfl, reads⟩ := exists_tree_of_completesAt completes
    rw [expression_of_reads reads, expression_of_reads (within.reads reads)]
    exact .inl rfl
  obtain ⟨failure, item⟩ | ⟨token, item, kind⟩ | ⟨token, reached, item, kind⟩ :=
    cases_of_node?_eq_none fails.obstacle
  · have fails' := within.failsAt fails (by rw [item]; rfl)
    rw [expression_of_failure_item fails item, expression_of_failure_item fails' item]
    exact .inl rfl
  · have failed := expression_of_unregistered fails item kind
    cases found : larger.find? token.lexeme with
    | none =>
      have fails' := within.failsAt fails (by simp [item, OperatorTable.node?, head?, kind, found])
      exact .inl ((expression_of_unregistered fails' item kind).trans failed.symm)
    | some op => exact .inr ⟨_, by rw [failed], _, _, rfl, rfl, Option.isSome_of_eq_some found⟩
  · cases n with
    | zero => exact .inl ((expression_of_ending item kind).trans (expression_of_ending item kind).symm)
    | succ n =>
      have fails' := within.failsAt fails (by simp [item, OperatorTable.node?, head?, kind])
      obtain ⟨nodes, op, found, reads, innermost, failed⟩ :=
        expression_of_ending_behind fails item kind (Nat.succ_ne_zero n)
      exact .inl ((expression_of_innermost fails' item kind (within.map_node? reads) innermost).trans
        failed.symm)

/-! ## What finds no room -/

theorem holdable_within (table : OperatorTable) : table.holdable.Within table := by
  intro symbol op found
  rw [find?_holdable] at found
  exact (Option.filter_eq_some_iff.1 found).1

/-- The overflow is that of an operator of the table which takes more operands than find room. -/
def Overflows (table : OperatorTable) (overflow : Overflow) : Prop :=
  ∃ symbol op, table.find? symbol = some op ∧ mostOperands < op.arity ∧
    overflow = .operands symbol op.arity

theorem overflow?_of_not_resolves (unknown : ¬ table.Resolves failure) :
    table.overflow? failure = none := by
  unfold overflow?
  split
  · next d =>
    split
    · next symbol cause =>
      cases found : table.find? symbol with
      | none => rfl
      | some op => exact absurd ⟨d, symbol, rfl, cause, Option.isSome_of_eq_some found⟩ unknown
    · rfl
  · rfl

theorem settle_of_not_resolves {α : Type} {result : Except Failure α}
    (unknown : ∀ failure, result = .error failure → ¬ table.Resolves failure) :
    table.settle result = .ok result := by
  cases result with
  | ok v => rfl
  | error failure => simp only [settle, overflow?_of_not_resolves (unknown failure rfl)]

/-- A word that only the whole table knows has an operator that was left out. -/
theorem settle_of_resolves {α : Type} (resolves : table.Resolves failure)
    (missed : ¬ table.holdable.Resolves failure) :
    ∃ overflow, table.Overflows overflow ∧
      table.settle (.error failure : Except Failure α) = .error overflow := by
  obtain ⟨d, symbol, rfl, cause, known⟩ := resolves
  obtain ⟨op, found⟩ := Option.isSome_iff_exists.1 known
  have large : ¬ op.arity ≤ mostOperands := fun fits =>
    missed ⟨d, symbol, rfl, cause, by rw [find?_holdable, found]; simpa using fits⟩
  refine ⟨_, ⟨symbol, op, found, Nat.lt_of_not_le large, rfl⟩, ?_⟩
  rw [settle]
  simp only [overflow?, cause, found, Option.map_some]

theorem mapM_settle_of_settled {results : List (Except Failure Float)}
    (settled : ∀ result ∈ results, table.settle result = .ok result) :
    results.mapM table.settle = .ok results := by
  induction results with
  | nil => rfl
  | cons first results ih =>
    obtain ⟨here, others⟩ := List.forall_mem_cons.1 settled
    rw [List.mapM_cons, here, ih others]
    rfl

theorem mapM_settle_of_overflow {overflow : Overflow} (vs : List Float)
    (unsettled : table.settle (.error failure : Except Failure Float) = .error overflow) :
    (delivery vs (some failure)).mapM table.settle = .error overflow := by
  induction vs with
  | nil =>
    rw [show delivery [] (some failure) = [.error failure] from rfl, List.mapM_cons, unsettled]
    rfl
  | cons v vs ih =>
    rw [show delivery (v :: vs) (some failure) = .ok v :: delivery vs (some failure) from rfl,
      List.mapM_cons, ih]
    rfl

/-! ## Evaluations -/

/-- An expression comes to what it means and leaves what it leaves, unless it calls an operator that
    finds no room. -/
theorem expressionInRoom_cases (table : OperatorTable) (s : TokenStream) :
    table.expressionInRoom s = (.ok (table.expression s).1, (table.expression s).2) ∨
      ∃ overflow, table.Overflows overflow ∧ (table.expressionInRoom s).1 = .error overflow := by
  obtain same | ⟨failure, failed, resolves⟩ := table.holdable_within.expression s
  · left
    have settled : table.settle (table.expression s).1 = .ok (table.expression s).1 :=
      settle_of_not_resolves fun failure failed => not_resolves_of_expression failed
    rw [expressionInRoom, ← same]
    exact Prod.ext settled rfl
  · right
    obtain ⟨overflow, overflows, settled⟩ :=
      settle_of_resolves (α := Float) resolves (not_resolves_of_expression failed)
    exact ⟨overflow, overflows, (congrArg table.settle failed).trans settled⟩

theorem valuesInRoom_cases (table : OperatorTable) (layout : Layout) (source : Source) :
    table.valuesInRoom layout source = .ok (Run.ofSource table layout source).values ∨
      ∃ overflow, table.Overflows overflow ∧ table.valuesInRoom layout source = .error overflow := by
  obtain same | ⟨vs, failure, given, resolves, _⟩ :=
    Run.values_ofSource_within table.holdable_within layout source
  · left
    rw [valuesInRoom, ← same]
    refine mapM_settle_of_settled fun result member => settle_of_not_resolves ?_
    rintro failure rfl
    exact not_resolves_of_mem_values member
  · right
    obtain ⟨overflow, overflows, settled⟩ :=
      settle_of_resolves (α := Float) resolves (not_resolves_of_delivery given)
    exact ⟨overflow, overflows, by rw [valuesInRoom, given, mapM_settle_of_overflow vs settled]⟩

/-- A sink that gets full in front of the word ends the report before there is no room. -/
theorem reportInRoom_cases (table : OperatorTable) (layout : Layout) (source : Source) (sink : Sink) :
    let meant := (Run.ofSource table layout source).report sink
    (∃ report, table.reportInRoom layout source sink = .ok report ∧
        report.result = meant.result ∧ report.sink = meant.sink) ∨
      ∃ overflow, table.Overflows overflow ∧
        table.reportInRoom layout source sink = .error overflow := by
  intro meant
  have settled (result : Except Failure Nat)
      (unknown : ∀ failure, result = .error failure → ¬ table.Resolves failure)
      (came : ((Run.ofSource table.holdable layout source).report sink).result = result) :
      table.reportInRoom layout source sink =
        .ok ((Run.ofSource table.holdable layout source).report sink) := by
    rw [reportInRoom]
    simp only [came, settle_of_not_resolves unknown]
    rfl
  obtain same | ⟨vs, failure, given, resolves, grows⟩ :=
    Run.values_ofSource_within table.holdable_within layout source
  · obtain ⟨result, written⟩ := Run.report_congr same sink
    refine .inl ⟨_, settled meant.result ?_ result.symm, result.symm, written.symm⟩
    -- what is no failure of the run is none at a word
    rintro failure failed ⟨d, symbol, rfl, unknown⟩
    exact not_resolves_of_mem_values (s := .ofSource layout source) (mem_values_of_reportFrom failed)
      ⟨d, symbol, rfl, unknown⟩
  · obtain fits | ⟨most, limit, full⟩ := sink.fits_or_full (linesOf vs)
    · obtain ⟨overflow, overflows, unsettled⟩ :=
        settle_of_resolves (α := Nat) resolves (not_resolves_of_delivery given)
      refine .inr ⟨overflow, overflows, ?_⟩
      rw [reportInRoom, Run.report, Run.reportFrom_of_fits given fits]
      simp only [Sink.close, unsettled]
      rfl
    · obtain ⟨result, written⟩ := Run.report_congr_of_full given grows limit full
      obtain ⟨_, _, _, _, came⟩ := @Run.reportFrom_of_full _ sink _ _ 0 given _ limit full
      refine .inl ⟨_, settled (.error (.io "sink full")) ?_ ?_, result.symm, written.symm⟩
      · rintro failure same ⟨d, symbol, rfl, _⟩
        cases same
      · rw [Run.report, came]

/-! ## Tables that find room -/

/-- The operands of every operator find room. -/
def HasRoom (table : OperatorTable) : Prop :=
  ∀ symbol op, table.find? symbol = some op → op.arity ≤ mostOperands

theorem HasRoom.not_overflows (room : table.HasRoom) {overflow : Overflow} :
    ¬ table.Overflows overflow := by
  rintro ⟨symbol, op, found, large, _⟩
  exact Nat.not_lt_of_le (room symbol op found) large

theorem expressionInRoom_eq (room : table.HasRoom) (s : TokenStream) :
    table.expressionInRoom s = (.ok (table.expression s).1, (table.expression s).2) := by
  obtain same | ⟨_, overflows, _⟩ := table.expressionInRoom_cases s
  · exact same
  · exact absurd overflows room.not_overflows

theorem valuesInRoom_eq (room : table.HasRoom) (layout : Layout) (source : Source) :
    table.valuesInRoom layout source = .ok (Run.ofSource table layout source).values := by
  obtain same | ⟨_, overflows, _⟩ := table.valuesInRoom_cases layout source
  · exact same
  · exact absurd overflows room.not_overflows

theorem exists_reportInRoom_eq (room : table.HasRoom) (layout : Layout) (source : Source) (sink : Sink) :
    let meant := (Run.ofSource table layout source).report sink
    ∃ report, table.reportInRoom layout source sink = .ok report ∧
      report.result = meant.result ∧ report.sink = meant.sink := by
  obtain same | ⟨_, overflows, _⟩ := table.reportInRoom_cases layout source sink
  · exact same
  · exact absurd overflows room.not_overflows

theorem hasRoom_ofList {ops : List Operator} (all : ∀ op ∈ ops, op.arity ≤ mostOperands) :
    (ofList ops).HasRoom := by
  intro symbol op found
  rw [find?_ofList, lastFor] at found
  exact all op (List.mem_of_mem_filter (List.mem_of_getLast? found))

end OperatorTable

/-- The operators of the program take two operands at most. -/
theorem Options.hasRoom_table (options : Options) : options.table.HasRoom := by
  have few : extendedOperators.all (fun op => op.arity ≤ mostOperands) = true := by decide
  have extended : extendedTable.HasRoom := OperatorTable.hasRoom_ofList (by simpa using few)
  rw [Options.table]
  split
  · exact extended
  · exact fun symbol op found => extended symbol op (basicTable_within symbol op found)

/-! ## Diagnostics -/

namespace Diagnostic

variable {d : Diagnostic}

/-- The place of a diagnostic with an excerpt has so few columns that its carets, and the blanks in
    front of them, find room. -/
def HasRoom (d : Diagnostic) : Prop :=
  ∀ place ∈ d.place, ∀ _code ∈ d.code, place.start ≤ mostBytes ∧ place.width ≤ mostBytes

theorem overflow?_eq_none_iff : d.overflow? = none ↔ d.HasRoom := by
  cases onPlace : d.place with
  | none => simp [overflow?, HasRoom, onPlace]
  | some place => cases onCode : d.code <;> simp [overflow?, HasRoom, onPlace, onCode]

/-- The text of a diagnostic is `Diagnostic.render`, or there is none since it finds no room. -/
theorem renderInRoom_eq_ok_iff {text : String} :
    d.renderInRoom = .ok text ↔ text = d.render ∧ d.HasRoom := by
  rw [← overflow?_eq_none_iff, renderInRoom]
  cases d.overflow? <;> simp [eq_comm]

end Diagnostic

/-- What is marked on a line lies on it. -/
theorem Cause.Marks.le_length {cause : Cause} {line : List Char} {place : Place} {count : Nat}
    (marks : cause.Marks line place count) : place.start ≤ line.length ∧ place.stop ≤ line.length := by
  have holds {l : Lexeme} (holds : place.Holds line l) :
      place.start ≤ line.length ∧ place.stop ≤ line.length := by
    obtain ⟨⟨before, after, rfl, start, _⟩, stop⟩ := holds
    simp only [Piece.chars] at start ⊢
    simp only [stop, ← start, List.length_append]
    omega
  have atEnd (ends : place.AtEnd line) : place.start ≤ line.length ∧ place.stop ≤ line.length := by
    obtain ⟨⟨text, ending, rfl, start, _⟩, stop⟩ := ends
    simp only [stop, ← start, List.length_append]
    omega
  cases cause with
  | strayCharacter | unknownOperator | secondExpression => exact holds marks
  | missingExpression => exact atEnd marks.2
  | missingOperand => exact atEnd marks.1
  | other => exact marks.elim

/-- Where the lines of a source find room, the diagnostics of its run do. -/
theorem hasRoom_of_mem_values {table : OperatorTable} {layout : Layout} {source : Source}
    {d : Diagnostic} (short : ∀ line ∈ source.lines, line.length ≤ mostBytes)
    (member : .error (.malformed d) ∈ (Run.ofSource table layout source).values) : d.HasRoom := by
  obtain ⟨place, line, points⟩ :=
    points_of_mem_values (fun _ => TokenStream.tracks_ofSource layout source) member d rfl
  have bytes := short _ (List.mem_of_getElem? points.line_eq)
  have most := Nat.le_trans (Text.length_le_length_encode line) bytes
  obtain ⟨start, stop⟩ := points.marks.le_length
  intro other onPlace code onCode
  obtain rfl : place = other := Option.some.inj (points.place_eq.symm.trans onPlace)
  have width : place.width ≤ place.stop := Nat.sub_le _ _
  omega

end Polish
