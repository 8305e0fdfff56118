import Polish.Proofs.Checks
import Polish.Proofs.Derivations
import Polish.Proofs.Reports

/-! # No check fails

The program with checks is the program: whatever is asked of a stream, and whatever its source does, no
check is ever the reason to stop.

* `Positioned` is what every step of a stream keeps: its offset is a position of the line held.
* `Passes`: a step from such a stream goes through with the checks, to the result that it has without
  them, and no operator is given the wrong number of operands.
* `Evaluates.passes` says it for an expression, along its tree of calls.
* `checks_never_fail` puts this together for calls in any order, for runs and for reports.
-/

namespace Polish

namespace Text

theorem isBoundary_zero (line : List Char) : IsBoundary line 0 := ⟨[], line, rfl, rfl⟩

theorem IsBoundary.le {line : List Char} {offset : Nat} (boundary : IsBoundary line offset) :
    offset ≤ byteLength line := by
  obtain ⟨before, behind, rfl, rfl⟩ := boundary
  rw [byteLength_append]
  exact Nat.le_add_right _ _

end Text

namespace TokenStream

/-- The offset is a position of the line held. -/
def Positioned (s : TokenStream) : Prop :=
  Text.IsBoundary s.text s.offset

end TokenStream

/-- With the checks a result is come to as it is without them.  The stream behind it is in position, and
    the result is not that an operator was given the wrong number of operands. -/
structure Passes {α : Type} (checked : Checked (Except Failure α × TokenStream))
    (result : Except Failure α × TokenStream) : Prop where
  eq_pure : checked = pure result
  positioned : result.2.Positioned
  fits : ∀ m, result.1 ≠ .error (.mismatch m)

namespace Passes

variable {α β : Type} {s : TokenStream} {checked : Checked (Except Failure α × TokenStream)}
  {failure : Failure}

theorem ok {v : α} (positioned : s.Positioned) : Passes (pure (.ok v, s)) (.ok v, s) where
  eq_pure := rfl
  positioned := positioned
  fits m same := by cases same

theorem malformed {d : Diagnostic} (positioned : s.Positioned) :
    Passes (pure (.error (.malformed d), s)) ((.error (.malformed d), s) : Except Failure α × _) where
  eq_pure := rfl
  positioned := positioned
  fits m same := by cases same

theorem io {message : String} (positioned : s.Positioned) :
    Passes (pure (.error (.io message), s)) ((.error (.io message), s) : Except Failure α × _) where
  eq_pure := rfl
  positioned := positioned
  fits m same := by cases same

/-- A failure is passed on. -/
theorem fail (passes : Passes checked (.error failure, s)) :
    Passes (pure (.error failure, s)) ((.error failure, s) : Except Failure β × _) where
  eq_pure := rfl
  positioned := passes.positioned
  fits m same := passes.fits m (congrArg Except.error (Except.error.inj same))

end Passes

namespace TokenStream

variable {s : TokenStream}

theorem positioned_ofSource (layout : Layout) (source : Source) :
    (ofSource layout source).Positioned :=
  Text.isBoundary_zero _

theorem positioned_hold (s : TokenStream) (text : List Char) : (s.hold text).Positioned :=
  Text.isBoundary_zero text

/-- What was found ends in front of what stands behind it, and so at a position. -/
theorem positioned_behind {before after : List Char} {lexeme : Lexeme}
    (text : s.text = before ++ (lexeme.chars ++ after)) :
    ({ s with offset := Text.byteLength before + lexeme.size } : TokenStream).Positioned :=
  ⟨before ++ lexeme.chars, after, by rw [List.append_assoc]; exact text, Text.byteLength_append _ _⟩

/-! ## One line -/

theorem placeOfChecked_eq {before after : List Char} {lexeme : Lexeme}
    (text : s.text = before ++ (lexeme.chars ++ after)) :
    s.placeOfChecked (Text.byteLength before) (Text.byteLength before + lexeme.size) =
      pure (s.placeOf (Text.byteLength before) (Text.byteLength before + lexeme.size)) := by
  have start : Text.cut (before ++ (lexeme.chars ++ after)) (Text.byteLength before) =
      pure (before, lexeme.chars ++ after) := Text.cut_eq_pure_iff.2 ⟨rfl, rfl⟩
  simp only [placeOfChecked, placeOf, text, start, pure_bind, Lexeme.size, Text.cutBetween_append,
    Text.columnAt_append, Text.slice_append]

namespace Positioned

theorem exists_cut (positioned : s.Positioned) :
    ∃ before, Text.cut s.text s.offset = pure (before, s.rest) := by
  obtain ⟨before, behind, text, offset⟩ := positioned
  refine ⟨before, Text.cut_eq_pure_iff.2 ⟨?_, offset⟩⟩
  rw [rest, text, ← offset, Text.behind_append]

theorem inPosition_eq (positioned : s.Positioned) : s.inPosition = pure s := by
  obtain ⟨before, cut⟩ := positioned.exists_cut
  rw [inPosition, cut, pure_bind]

theorem searchChecked_eq (positioned : s.Positioned) :
    s.searchChecked = pure (Lexeme.findAt? s.text s.offset) := by
  obtain ⟨before, cut⟩ := positioned.exists_cut
  rw [searchChecked, cut, pure_bind]
  rfl

theorem onLineChecked?_eq (positioned : s.Positioned) : s.onLineChecked? = pure s.onLine? := by
  rw [onLineChecked?, positioned.searchChecked_eq, pure_bind, TokenStream.onLine?]
  cases located : Lexeme.findAt? s.text s.offset with
  | none => rfl
  | some piece =>
    obtain ⟨start, lexeme⟩ := piece
    obtain ⟨before, blanks, after, _, text, _, rfl⟩ := Lexeme.exists_eq_append_of_findAt? located
    rw [← List.append_assoc] at text
    -- the place is told after the stream has gone on, and on the same line
    let s' := { s with offset := Text.byteLength (before ++ blanks) + lexeme.size }
    have place := placeOfChecked_eq (s := s') text
    simp only [(positioned_behind text).inPosition_eq, pure_bind, place, s']
    rfl

theorem of_onLine? (positioned : s.Positioned) {result : Except Failure Token × TokenStream}
    (answered : s.onLine? = some result) : Passes (pure result) result := by
  obtain ⟨item, s'⟩ := result
  obtain ⟨before, blanks, lexeme, after, found, rfl, rfl⟩ | ⟨_, _, rfl, rfl⟩ := onLine?_cases answered
  · have text : s.text = (before ++ blanks) ++ (lexeme.chars ++ after) := by
      rw [found.text_eq, List.append_assoc]
    rw [Text.byteLength_append]
    cases lexeme with
    | word chars => exact .ok (positioned_behind text)
    | stray c => exact .malformed (positioned_behind text)
  · exact .ok positioned

/-! ## Taking tokens -/

theorem scanFrom (positioned : s.Positioned) (unread : List Read) :
    Passes (s.scanFromChecked unread) (s.scanFrom unread) := by
  induction unread generalizing s with
  | nil =>
    rw [scanFromChecked, positioned.onLineChecked?_eq, pure_bind, TokenStream.scanFrom]
    cases answered : s.onLine? with
    | none => exact .ok positioned
    | some result => exact positioned.of_onLine? answered
  | cons read unread ih =>
    rw [scanFromChecked, positioned.onLineChecked?_eq, pure_bind, TokenStream.scanFrom]
    cases answered : s.onLine? with
    | some result => exact positioned.of_onLine? answered
    | none =>
      cases outcome : read.outcome with
      | error message => exact .io positioned
      | ok text =>
        have held := positioned_hold (s.advance read.size unread) text
        simp only [held.inPosition_eq, pure_bind]
        exact ih held

theorem scan (positioned : s.Positioned) : Passes s.scanChecked s.scan := by
  rw [scanChecked, TokenStream.scan]
  split
  · exact .ok positioned
  · exact positioned.scanFrom s.unread

theorem next (positioned : s.Positioned) : Passes s.nextChecked s.next := by
  rw [nextChecked, TokenStream.next]
  cases s.lookahead with
  | some token => exact .ok positioned
  | none => exact positioned.scan

theorem peek (positioned : s.Positioned) : Passes s.peekChecked s.peek := by
  rw [peekChecked, TokenStream.peek]
  cases s.lookahead with
  | some token => exact .ok positioned
  | none =>
    have passes := positioned.scan
    simp only [passes.eq_pure, pure_bind]
    rcases scanned : s.scan with ⟨failure | token, s'⟩ <;> rw [scanned] at passes
    · exact passes.fail
    · exact .ok passes.positioned

theorem next? (positioned : s.Positioned) :
    s.nextChecked? = pure s.next? ∧ s.next?.2.Positioned := by
  have passes := positioned.next
  rw [nextChecked?, passes.eq_pure, pure_bind, TokenStream.next?]
  rcases taken : s.next with ⟨failure | token, s'⟩ <;> rw [taken] at passes
  · exact ⟨rfl, passes.positioned⟩
  · refine ⟨rfl, ?_⟩
    change (if token.isLast then ((none : Answer), s') else (some (.ok token), s')).2.Positioned
    split <;> exact passes.positioned

theorem respond (positioned : s.Positioned) (request : Request) :
    s.respondChecked request = pure (s.respond request) ∧ (s.respond request).2.Positioned := by
  cases request with
  | take =>
    rw [respondChecked, positioned.next.eq_pure, pure_bind]
    exact ⟨rfl, positioned.next.positioned⟩
  | look =>
    rw [respondChecked, positioned.peek.eq_pure, pure_bind]
    exact ⟨rfl, positioned.peek.positioned⟩
  | takeUnlessLast => exact positioned.next?

theorem closeLine (positioned : s.Positioned) : Passes s.closeLineChecked s.closeLine := by
  rw [closeLineChecked, TokenStream.closeLine]
  cases s.layout with
  | freeform => exact .ok positioned
  | linewise =>
    have passes := positioned.next
    simp only [passes.eq_pure, pure_bind]
    rcases taken : s.next with ⟨failure | token, s'⟩ <;> rw [taken] at passes
    · exact passes.fail
    · cases kind : token.kind with
      | ending reached =>
        simp only [kind]
        exact .ok passes.positioned
      | number | word =>
        simp only [kind]
        exact .malformed passes.positioned

end Positioned

end TokenStream

/-! ## Expressions -/

namespace OperatorTable

variable {table : OperatorTable}

/-- A word makes the stream smaller, so that its operands have room one call deeper. -/
theorem exists_depth_of_word {s s₁ : TokenStream} {token : Token} {depth : Nat}
    (taken : s.next = (.ok token, s₁)) (kind : token.kind = .word) (room : s.size ≤ depth) :
    ∃ deeper, depth = deeper + 1 ∧ s₁.size ≤ deeper := by
  have less : s₁.size < depth :=
    Nat.lt_of_lt_of_le (TokenStream.size_next_lt_of_ok taken (by rw [Token.isLast, kind])) room
  exact ⟨depth - 1, by omega, by omega⟩

theorem operandsChecked_of_token
    {evaluate : TokenStream → Checked (Except Failure Float × TokenStream)} {symbol : String}
    {op : Operator} {operands : Array Float} {s s₁ s₂ : TokenStream} {token : Token}
    {result : Except Failure Float} (waits : operands.size < op.arity)
    (looked : s.peekChecked = pure (.ok token, s₁)) (kind : ∀ reached, token.kind ≠ .ending reached)
    (first : evaluate s₁ = pure (result, s₂)) :
    op.operandsChecked evaluate symbol operands s =
      match result with
      | .error failure => pure (.error failure, s₂)
      | .ok v => op.operandsChecked evaluate symbol (operands.push v) s₂ := by
  rw [Operator.operandsChecked, dif_pos waits, looked, pure_bind]
  cases same : token.kind with
  | ending reached => exact absurd same (kind reached)
  | number | word =>
    simp only [same, first, pure_bind]
    cases result <;> rfl

/-- Along a tree of calls every check lets the call pass.  An operator is applied when all its operands
    are there, since to collect them goes on until there are as many as it takes, and adds one at a
    time. -/
theorem Evaluates.passes {s : TokenStream} {result : Except Failure Float × TokenStream} {n depth : Nat}
    (evaluates : table.Evaluates s result n) (positioned : s.Positioned) (room : s.size ≤ depth) :
    Passes (table.expressionWithin (depth + 1) s) result := by
  refine @Evaluates.rec table
    (fun s result _ _ => ∀ depth, s.Positioned → s.size ≤ depth →
      Passes (table.expressionWithin (depth + 1) s) result)
    (fun symbol op operands s result _ _ => ∀ depth, s.Positioned → s.size ≤ depth →
      operands.size ≤ op.arity →
        Passes (op.operandsChecked (table.expressionWithin (depth + 1)) symbol operands s) result ∧
          ∀ all, result.1 = .ok all → all.size = op.arity)
    ?failure ?number ?ending ?unknown ?operator ?operands
    ?complete ?lost ?missing ?operandFails ?operand s result n evaluates depth positioned room
  case failure =>
    intro s s₁ failure taken depth positioned room
    have passes := taken ▸ positioned.next
    rw [expressionWithin, passes.eq_pure, pure_bind]
    exact passes.fail
  case number =>
    intro s s₁ token v taken kind depth positioned room
    have passes := taken ▸ positioned.next
    rw [expressionWithin, passes.eq_pure, pure_bind]
    simp only [kind]
    exact .ok passes.positioned
  case ending =>
    intro s s₁ token reached taken kind depth positioned room
    have passes := taken ▸ positioned.next
    rw [expressionWithin, passes.eq_pure, pure_bind]
    simp only [kind]
    exact .malformed passes.positioned
  case unknown =>
    intro s s₁ token taken kind unregistered depth positioned room
    have passes := taken ▸ positioned.next
    rw [expressionWithin, passes.eq_pure, pure_bind]
    simp only [kind, unregistered]
    exact .malformed passes.positioned
  case operator =>
    intro s s₁ s₂ token op operands n taken kind found _ collect depth positioned room
    have passes := taken ▸ positioned.next
    obtain ⟨deeper, rfl, room₁⟩ := exists_depth_of_word taken kind room
    obtain ⟨collected, complete⟩ := collect deeper passes.positioned room₁ (Nat.zero_le _)
    have applied := Operator.apply_eq_ok_iff.2 ⟨complete operands rfl, rfl⟩
    rw [expressionWithin, passes.eq_pure, pure_bind]
    simp only [kind, found, collected.eq_pure, pure_bind, Operator.applyChecked, applied]
    exact .ok collected.positioned
  case operands =>
    intro s s₁ s₂ token op failure n taken kind found _ collect depth positioned room
    have passes := taken ▸ positioned.next
    obtain ⟨deeper, rfl, room₁⟩ := exists_depth_of_word taken kind room
    obtain ⟨collected, _⟩ := collect deeper passes.positioned room₁ (Nat.zero_le _)
    rw [expressionWithin, passes.eq_pure, pure_bind]
    simp only [kind, found, collected.eq_pure, pure_bind]
    exact collected.fail
  case complete =>
    intro symbol op operands s full depth positioned room le
    rw [Operator.operandsChecked, dif_neg full]
    refine ⟨.ok positioned, fun all same => ?_⟩
    cases same
    exact Nat.le_antisymm le (Nat.le_of_not_lt full)
  case lost =>
    intro symbol op operands s s₁ failure waits looked depth positioned room le
    have passes := looked ▸ positioned.peek
    rw [Operator.operandsChecked, dif_pos waits, passes.eq_pure, pure_bind]
    exact ⟨passes.fail, fun all same => by cases same⟩
  case missing =>
    intro symbol op operands s s₁ token reached waits looked kind depth positioned room le
    have passes := looked ▸ positioned.peek
    rw [Operator.operandsChecked, dif_pos waits, passes.eq_pure, pure_bind]
    simp only [kind]
    exact ⟨.malformed passes.positioned, fun all same => by cases same⟩
  case operandFails =>
    intro symbol op operands s s₁ s₂ token failure n waits looked kind _ first depth positioned room le
    have passes := looked ▸ positioned.peek
    have failed := first depth passes.positioned (Nat.le_trans (TokenStream.size_peek_le looked) room)
    rw [operandsChecked_of_token waits passes.eq_pure kind failed.eq_pure]
    exact ⟨failed.fail, fun all same => by cases same⟩
  case operand =>
    intro symbol op operands s s₁ s₂ token v result m n waits looked kind evaluates _ first others depth
      positioned room le
    have passes := looked ▸ positioned.peek
    have room₁ := Nat.le_trans (TokenStream.size_peek_le looked) room
    have room₂ := Nat.le_trans (Nat.le_of_lt (size_expression_lt evaluates.expression_eq)) room₁
    have value := first depth passes.positioned room₁
    rw [operandsChecked_of_token waits passes.eq_pure kind value.eq_pure]
    exact others depth value.positioned room₂ (by rw [Array.size_push]; exact waits)

theorem expression_passes (table : OperatorTable) {s : TokenStream} (positioned : s.Positioned) :
    Passes (table.expressionChecked s) (table.expression s) := by
  obtain ⟨n, evaluates⟩ := exists_evaluates table s
  exact evaluates.passes positioned (Nat.le_refl _)

theorem nextValue_passes (table : OperatorTable) {s : TokenStream} (positioned : s.Positioned) :
    Passes (table.nextValueChecked s) (table.nextValue s) := by
  have looks := positioned.peek
  rw [nextValueChecked, looks.eq_pure, pure_bind, nextValue]
  rcases looked : s.peek with ⟨failure | token, s₁⟩ <;> rw [looked] at looks
  · exact looks.fail
  · by_cases last : token.isLast = true
    · simp only [if_pos last]
      exact .ok looks.positioned
    · have evaluates := table.expression_passes looks.positioned
      simp only [if_neg last, evaluates.eq_pure, pure_bind]
      rcases value : table.expression s₁ with ⟨failure | v, s₂⟩ <;> rw [value] at evaluates
      · exact evaluates.fail
      · have closes := evaluates.positioned.closeLine
        simp only [closes.eq_pure, pure_bind]
        rcases closed : s₂.closeLine with ⟨failure | _, s₃⟩ <;> rw [closed] at closes
        · exact closes.fail
        · exact .ok closes.positioned

end OperatorTable

/-! ## Runs, reports and calls -/

namespace Run

variable {run : Run}

theorem next?_passes (positioned : run.stream.Positioned) :
    run.nextChecked? = pure run.next? ∧ run.next?.2.stream.Positioned ∧
      ∀ m, run.next?.1 ≠ some (.error (.mismatch m)) := by
  by_cases finished : run.finished = true
  · rw [nextChecked?, if_pos finished, next?, if_pos finished]
    exact ⟨rfl, positioned, fun m same => by cases same⟩
  · have passes := run.table.nextValue_passes positioned
    rw [nextChecked?, if_neg finished, passes.eq_pure, pure_bind, next?, if_neg finished]
    rcases given : run.table.nextValue run.stream with ⟨failure | _ | v, s⟩ <;> rw [given] at passes
    · exact ⟨rfl, passes.positioned, fun m same => passes.fits m (by cases same; rfl)⟩
    · exact ⟨rfl, passes.positioned, fun m same => by cases same⟩
    · exact ⟨rfl, passes.positioned, fun m same => by cases same⟩

/-- Between two pulls the offset is a position. -/
theorem positioned_after (positioned : run.stream.Positioned) (k : Nat) :
    (run.after k).stream.Positioned := by
  induction k generalizing run with
  | zero => exact positioned
  | succ k ih => exact ih (next?_passes positioned).2.1

theorem values_pass {rounds : Nat} (positioned : run.stream.Positioned) (room : run.size < rounds) :
    valuesWithin rounds run = pure run.values ∧ ∀ m, .error (.mismatch m) ∉ run.values := by
  induction rounds generalizing run with
  | zero => contradiction
  | succ rounds ih =>
    obtain ⟨passes, behind, fits⟩ := next?_passes positioned
    rw [valuesWithin, passes, pure_bind]
    rcases given : run.next? with ⟨_ | result, run'⟩ <;> rw [given] at behind fits
    · rw [values_of_nothing given]
      exact ⟨rfl, fun m => List.not_mem_nil⟩
    · have less := Nat.lt_of_lt_of_le (size_next?_lt given) (Nat.le_of_lt_succ room)
      obtain ⟨others, none⟩ := ih behind less
      rw [values_of_next? given]
      refine ⟨by simp only [others, pure_bind], fun m member => ?_⟩
      obtain first | later := List.mem_cons.1 member
      · exact fits m (congrArg some first.symm)
      · exact none m later

theorem report_passes {rounds : Nat} (positioned : run.stream.Positioned) (room : run.size < rounds)
    (sink : Sink) (count : Nat) :
    reportWithin rounds run sink count = pure (run.reportFrom sink count) ∧
      ∀ m, (run.reportFrom sink count).result ≠ .error (.mismatch m) := by
  induction rounds generalizing run sink count with
  | zero => contradiction
  | succ rounds ih =>
    obtain ⟨passes, behind, fits⟩ := next?_passes positioned
    rw [reportWithin, passes, pure_bind]
    rcases given : run.next? with ⟨_ | failure | v, run'⟩ <;> rw [given] at behind fits
    · rw [reportFrom_of_end given]
      cases fails : sink.flushFails <;> simp [Sink.flush, Sink.close, fails]
    · rw [reportFrom_of_failure given]
      exact ⟨rfl, fun m same => fits m (by cases same; rfl)⟩
    · rw [reportFrom_of_value given]
      have less := Nat.lt_of_lt_of_le (size_next?_lt given) (Nat.le_of_lt_succ room)
      rcases written : sink.write (Text.encode (valueLine v)) with ⟨message | _, sink'⟩
      · exact ⟨by simp only [written], fun m same => by cases same⟩
      · simp only [written]
        exact ih behind less sink' (count + 1)

end Run

namespace TokenStream

variable {s : TokenStream}

theorem Positioned.call (positioned : s.Positioned) (call : Call) :
    s.callChecked call = pure (s.call call) ∧ (s.call call).2.Positioned ∧
      ∀ m, (s.call call).1 ≠ .value (.error (.mismatch m)) := by
  cases call with
  | request request =>
    obtain ⟨passes, behind⟩ := positioned.respond request
    rw [callChecked, passes, pure_bind]
    exact ⟨rfl, behind, fun m same => by cases same⟩
  | diagnose token message => exact ⟨rfl, positioned, fun m same => by cases same⟩
  | evaluate table =>
    have passes := table.expression_passes positioned
    rw [callChecked, passes.eq_pure, pure_bind]
    exact ⟨rfl, passes.positioned, fun m same => passes.fits m (Response.value.inj same)⟩

theorem Positioned.callAll (positioned : s.Positioned) (calls : List Call) :
    s.callAllChecked calls = pure (s.callAll calls) ∧ (s.callAll calls).2.Positioned ∧
      ∀ m, .value (.error (.mismatch m)) ∉ (s.callAll calls).1 := by
  induction calls generalizing s with
  | nil => exact ⟨rfl, positioned, fun m => List.not_mem_nil⟩
  | cons call calls ih =>
    obtain ⟨passes, behind, fits⟩ := positioned.call call
    obtain ⟨others, last, none⟩ := ih behind
    rw [callAllChecked, passes, pure_bind]
    refine ⟨?_, last, fun m member => ?_⟩
    · simp only [others, pure_bind]
      rfl
    · obtain first | later := List.mem_cons.1 member
      · exact fits m first.symm
      · exact none m later

end TokenStream

/-- Nothing is ever asked for that has no meaning, whatever a stream is used for and whatever its source
    does.
    * Any calls of a fresh stream go through with the checks, to the responses and the stream that they
      have without them.  So a stream never goes on to an offset that is no position and never searches
      from one, it tells the place of nothing but the part between two positions, and an operator is
      never applied to another number of operands than it takes.  Behind the calls the offset is a
      position of the line held, and not past its end.
    * Runs and reports go through as well, and between two pulls the offset is a position.
    * In particular no response, no value and no report is that the number of operands was wrong. -/
theorem checks_never_fail (layout : Layout) (source : Source) :
    let s := TokenStream.ofSource layout source
    (∀ calls,
      let (responses, s') := s.callAll calls
      s.callAllChecked calls = pure (responses, s') ∧
        s'.offset ≤ Text.byteLength s'.text ∧ s'.Positioned ∧
        ∀ m, .value (.error (.mismatch m)) ∉ responses) ∧
      ∀ table,
        let run := Run.ofSource table layout source
        (∀ k, (run.after k).stream.Positioned) ∧
          (run.valuesChecked = pure run.values ∧ ∀ m, .error (.mismatch m) ∉ run.values) ∧
          ∀ sink, run.reportChecked sink = pure (run.report sink) ∧
            ∀ m, (run.report sink).result ≠ .error (.mismatch m) := by
  intro s
  have fresh : s.Positioned := TokenStream.positioned_ofSource layout source
  refine ⟨fun calls => ?_, fun table => ⟨Run.positioned_after fresh, ?_, fun sink => ?_⟩⟩
  · obtain ⟨passes, behind, none⟩ := fresh.callAll calls
    exact ⟨passes, behind.le, behind, none⟩
  · exact Run.values_pass fresh (Nat.lt_succ_self _)
  · exact Run.report_passes fresh (Nat.lt_succ_self _) sink 0

end Polish
