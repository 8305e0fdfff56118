import Polish.Proofs.Laziness
import Polish.Report

/-! # What a report writes

A report writes the lines of the values that its run gives, one after the other, until the run ends
or the sink is full.  Three things may end it, a failure of the run, a line that does not fit and a
flush that fails, and the first of them decides.

* `Run.exists_delivery`: what a run gives are values, and at most one failure behind them.
* `Sink.Fits` says that there is room for some bytes; `write_of_fits` and `write_of_full` are the two
  outcomes of a write.
* `reportFrom_of_fits` and `reportFrom_of_full` go along the values.
* `report_of_free`: a sink without a limit takes a report behind whatever it holds already.
* `report_writes_values` says it for a whole report.
-/

namespace Polish

/-! ## What a run gives -/

/-- Values, and perhaps a failure behind them. -/
def delivery (vs : List Float) (final : Option Failure) : List (Except Failure Float) :=
  vs.map .ok ++ (final.map .error).toList

theorem error_mem_delivery {vs : List Float} {final : Option Failure} {failure : Failure} :
    .error failure ∈ delivery vs final ↔ final = some failure := by
  cases final <;> simp [delivery, eq_comm]

/-- What stands in front of the failure are the values, and nothing stands behind it. -/
theorem delivery_eq_append {vs : List Float} {final : Option Failure} {failure : Failure}
    {before behind : List (Except Failure Float)}
    (split : delivery vs final = before ++ .error failure :: behind) :
    before = vs.map .ok ∧ final = some failure ∧ behind = [] := by
  induction vs generalizing before with
  | nil =>
    cases final <;> cases before <;> simp_all [delivery]
  | cons v vs ih =>
    cases before with
    | nil => cases split
    | cons first before =>
      obtain ⟨rfl, others⟩ := List.cons.inj split
      obtain ⟨rfl, same, none⟩ := ih others
      exact ⟨rfl, same, none⟩

/-- Of what is given, a list of values is at most all the values. -/
theorem prefix_of_delivery {vs ws : List Float} {final : Option Failure}
    (grows : vs.map .ok <+: delivery ws final) : vs <+: ws := by
  induction vs generalizing ws with
  | nil => exact List.nil_prefix
  | cons v vs ih =>
    cases ws with
    | nil => cases final <;> simp [delivery] at grows
    | cons w ws =>
      have both : .ok v :: vs.map .ok <+: .ok w :: delivery ws final := grows
      obtain ⟨same, others⟩ := List.cons_prefix_cons.1 both
      cases same
      exact (List.prefix_cons_inj v).2 (ih others)

theorem delivery_inj {vs ws : List Float} {final last : Option Failure}
    (same : delivery vs final = delivery ws last) : vs = ws ∧ final = last := by
  have there : vs <+: ws := prefix_of_delivery ⟨_, same⟩
  have back : ws <+: vs := prefix_of_delivery ⟨_, same.symm⟩
  obtain rfl := there.eq_of_length_le back.length_le
  have ends : (final.map Except.error).toList = (last.map Except.error).toList :=
    List.append_cancel_left same
  cases final <;> cases last <;> simp_all

/-- The bytes that values are written as: each as it is shown, and a line feed behind it. -/
def linesOf (vs : List Float) : List UInt8 :=
  vs.flatMap fun v => Text.encode (Number.write v ++ ['\n'])

@[simp]
theorem linesOf_nil : linesOf [] = [] := rfl

@[simp]
theorem linesOf_cons (v : Float) (vs : List Float) :
    linesOf (v :: vs) = Text.encode (valueLine v) ++ linesOf vs :=
  List.flatMap_cons

theorem linesOf_mono {vs ws : List Float} (grows : vs <+: ws) : linesOf vs <+: linesOf ws := by
  obtain ⟨others, rfl⟩ := grows
  exact ⟨linesOf others, List.flatMap_append.symm⟩

namespace Run

variable {run : Run} {vs : List Float} {final : Option Failure}

theorem next?_of_values_nil (none : run.values = []) : run.next? = (.none, run.next?.2) := by
  rcases taken : run.next? with ⟨_ | result, run'⟩
  · rfl
  · rw [values_of_next? taken] at none
    cases none

theorem next?_of_values_cons {result : Except Failure Float} {others : List (Except Failure Float)}
    (some : run.values = result :: others) :
    run.next? = (.some result, run.next?.2) ∧ run.next?.2.values = others := by
  rw [values] at some
  split at some
  · cases some
  · next taken =>
    obtain ⟨rfl, rfl⟩ := List.cons.inj some
    rw [taken]
    exact ⟨rfl, rfl⟩

theorem values_of_stopped {failure : Failure} {run' : Run}
    (taken : run.next? = (some (.error failure), run')) : run'.values = [] := by
  have finished : run'.finished = true := by
    have notValue : ∀ v, run.next?.1 ≠ some (.ok v) := fun v same => by
      rw [taken] at same
      cases same
    have stopped := finished_of_next? notValue
    rwa [taken] at stopped
  obtain ⟨table, stream, _⟩ := run'
  cases finished
  exact values_of_finished

/-- Behind a failure a run gives nothing more. -/
theorem exists_delivery (run : Run) : ∃ vs final, run.values = delivery vs final := by
  induction size : run.size using Nat.strongRecOn generalizing run with
  | ind size ih =>
    rcases taken : run.next? with ⟨_ | failure | v, run'⟩
    · refine ⟨[], none, ?_⟩
      rw [values]
      split
      · rfl
      · next other => rw [taken] at other; cases other
    · exact ⟨[], some failure, by rw [values_of_next? taken, values_of_stopped taken]; rfl⟩
    · obtain ⟨vs, final, others⟩ := ih _ (size ▸ size_next?_lt taken) run' rfl
      exact ⟨v :: vs, final, by rw [values_of_next? taken, others]; rfl⟩

end Run

/-! ## What a sink takes -/

namespace Sink

variable {sink : Sink} {first second bytes : List UInt8}

def Fits (sink : Sink) (bytes : List UInt8) : Prop :=
  ∀ most, sink.capacity = some most → bytes.length ≤ most - sink.content.size

/-- The sink when it has taken all of `bytes`. -/
def put (sink : Sink) (bytes : List UInt8) : Sink :=
  { sink with content := sink.content ++ bytes }

theorem toList_put (sink : Sink) (bytes : List UInt8) :
    (sink.put bytes).content.toList = sink.content.toList ++ bytes := by
  simp [put]

@[simp]
theorem put_nil (sink : Sink) : sink.put [] = sink := by
  simp [put]

theorem put_append (sink : Sink) (first second : List UInt8) :
    sink.put (first ++ second) = (sink.put first).put second := by
  have same : sink.content ++ (first ++ second) = sink.content ++ first ++ second := by
    rw [← Array.toList_inj]
    simp only [Array.toList_appendList, List.append_assoc]
  simp only [put, same]

theorem size_put (sink : Sink) (bytes : List UInt8) :
    (sink.put bytes).content.size = sink.content.size + bytes.length := by
  rw [← Array.length_toList, toList_put, List.length_append, Array.length_toList]

theorem fits_append : sink.Fits (first ++ second) ↔ sink.Fits first ∧ (sink.put first).Fits second := by
  have size := sink.size_put first
  constructor
  · intro fits
    constructor
    · intro most limit
      have := fits most limit
      simp only [List.length_append] at this
      omega
    · intro most limit
      have := fits most limit
      simp only [List.length_append] at this
      omega
  · intro fits most limit
    have here := fits.1 most limit
    have behind := fits.2 most limit
    simp only [List.length_append]
    omega

theorem fits_or_full (sink : Sink) (bytes : List UInt8) :
    sink.Fits bytes ∨ ∃ most, sink.capacity = some most ∧ most - sink.content.size < bytes.length := by
  by_cases fits : sink.Fits bytes
  · exact .inl fits
  · simp only [Sink.Fits, not_forall, not_le] at fits
    obtain ⟨most, limit, full⟩ := fits
    exact .inr ⟨most, limit, full⟩

theorem write_of_fits (fits : sink.Fits bytes) : sink.write bytes = (.ok (), sink.put bytes) := by
  have all : sink.fitting bytes = bytes.length := by
    rw [fitting]
    split
    · rfl
    · next most limit => exact Nat.min_eq_left (fits most limit)
  rw [write, all, if_pos rfl, List.take_length, put]

/-- A sink that has not enough room takes what fits. -/
theorem write_of_full {most : Nat} (limit : sink.capacity = some most)
    (full : most - sink.content.size < bytes.length) :
    sink.write bytes =
      (.error "sink full", sink.put (bytes.take (most - sink.content.size))) := by
  have some_fit : sink.fitting bytes = most - sink.content.size := by
    rw [fitting, limit]
    exact Nat.min_eq_right (Nat.le_of_lt full)
  rw [write, some_fit, if_neg (Nat.ne_of_lt full), put]

end Sink

/-! ## What a report comes to -/

/-- What ends a report when everything was written. -/
def Sink.close (sink : Sink) (final : Option Failure) (count : Nat) : Except Failure Nat × Sink :=
  match final with
  | some failure => (.error failure, sink)
  | none => (if sink.flushFails then .error (.io "flush failed") else .ok count, sink.flush.2)

namespace Run

variable {run run' : Run} {sink : Sink} {vs : List Float} {final : Option Failure} {count : Nat}

theorem reportFrom_of_end (taken : run.next? = (none, run')) :
    run.reportFrom sink count =
      ⟨(sink.close none count).1, (sink.close none count).2, run'⟩ := by
  rw [reportFrom]
  split
  · next ended =>
    rw [taken] at ended
    cases ended
    cases fails : sink.flushFails <;> simp [Sink.flush, Sink.close, fails]
  · next other => rw [taken] at other; cases other
  · next other => rw [taken] at other; cases other

theorem reportFrom_of_failure {failure : Failure} (taken : run.next? = (some (.error failure), run')) :
    run.reportFrom sink count = ⟨.error failure, sink, run'⟩ := by
  rw [reportFrom]
  split
  · next other => rw [taken] at other; cases other
  · next failed =>
    rw [taken] at failed
    cases failed
    rfl
  · next other => rw [taken] at other; cases other

theorem reportFrom_of_value {v : Float} (taken : run.next? = (some (.ok v), run')) :
    run.reportFrom sink count =
      match sink.write (Text.encode (valueLine v)) with
      | (.ok (), sink) => run'.reportFrom sink (count + 1)
      | (.error message, sink) => ⟨.error (.io message), sink, run'⟩ := by
  rw [reportFrom]
  split
  · next other => rw [taken] at other; cases other
  · next other => rw [taken] at other; cases other
  · next given =>
    rw [taken] at given
    cases given
    rfl

/-- As long as the lines fit they are all written, and then the run or the flush decides. -/
theorem reportFrom_of_fits (given : run.values = delivery vs final) (fits : sink.Fits (linesOf vs)) :
    run.reportFrom sink count =
      ⟨((sink.put (linesOf vs)).close final (count + vs.length)).1,
        ((sink.put (linesOf vs)).close final (count + vs.length)).2, run.after (vs.length + 1)⟩ := by
  induction vs generalizing run sink count with
  | nil =>
    cases final with
    | none => rw [reportFrom_of_end (next?_of_values_nil given), linesOf_nil, Sink.put_nil]; rfl
    | some failure =>
      rw [reportFrom_of_failure (next?_of_values_cons given).1, linesOf_nil, Sink.put_nil]; rfl
  | cons v vs ih =>
    have first : run.values = .ok v :: delivery vs final := given
    obtain ⟨taken, others⟩ := next?_of_values_cons first
    rw [linesOf_cons, Sink.fits_append] at fits
    rw [reportFrom_of_value taken, Sink.write_of_fits fits.1]
    simp only
    rw [ih others fits.2, linesOf_cons, Sink.put_append, List.length_cons, Nat.add_right_comm,
      Nat.add_assoc count]
    rfl

/-- The first line that does not fit ends the report, and no value behind it is asked for. -/
theorem reportFrom_of_full (given : run.values = delivery vs final) {most : Nat}
    (limit : sink.capacity = some most) (full : most - sink.content.size < (linesOf vs).length) :
    ∃ k < vs.length, (linesOf (vs.take k)).length ≤ most - sink.content.size ∧
      most - sink.content.size < (linesOf (vs.take (k + 1))).length ∧
      run.reportFrom sink count = ⟨.error (.io "sink full"),
        sink.put ((linesOf vs).take (most - sink.content.size)), run.after (k + 1)⟩ := by
  induction vs generalizing run sink count with
  | nil => simp at full
  | cons v vs ih =>
    have first : run.values = .ok v :: delivery vs final := given
    obtain ⟨taken, others⟩ := next?_of_values_cons first
    rw [reportFrom_of_value taken]
    by_cases fits : (Text.encode (valueLine v)).length ≤ most - sink.content.size
    · -- the line fits, and the sink has that much less room for the others
      have first : sink.Fits (Text.encode (valueLine v)) := by
        intro other same
        rw [limit] at same
        cases same
        exact fits
      have size := sink.size_put (Text.encode (valueLine v))
      rw [linesOf_cons, List.length_append] at full
      obtain ⟨k, less, enough, few, ended⟩ :=
        @ih _ (sink.put (Text.encode (valueLine v))) (count + 1) others limit (by omega)
      rw [Sink.write_of_fits first]
      refine ⟨k + 1, Nat.succ_lt_succ less, ?_, ?_, ?_⟩
      · rw [List.take_succ_cons, linesOf_cons, List.length_append]
        omega
      · rw [List.take_succ_cons, linesOf_cons, List.length_append]
        omega
      · simp only
        rw [ended, size, linesOf_cons, List.take_append, List.take_of_length_le fits,
          Sink.put_append, Nat.sub_sub]
        rfl
    · have less : most - sink.content.size < (Text.encode (valueLine v)).length := Nat.lt_of_not_le fits
      rw [Sink.write_of_full limit less]
      refine ⟨0, Nat.succ_pos _, Nat.zero_le _, ?_, ?_⟩
      · rw [List.take_succ_cons, List.take_zero, linesOf_cons, linesOf_nil, List.append_nil]
        exact less
      · rw [linesOf_cons, List.take_append_of_le_length (Nat.le_of_lt less)]
        rfl

/-- What a report comes to is told by the values of its run. -/
theorem report_congr (same : run'.values = run.values) (sink : Sink) :
    (run'.report sink).result = (run.report sink).result ∧
      (run'.report sink).sink = (run.report sink).sink := by
  obtain ⟨vs, final, given⟩ := run.exists_delivery
  obtain fits | ⟨most, limit, full⟩ := sink.fits_or_full (linesOf vs)
  · rw [report, report, reportFrom_of_fits given fits, reportFrom_of_fits (same.trans given) fits]
    exact ⟨rfl, rfl⟩
  · obtain ⟨_, _, _, _, written⟩ := @reportFrom_of_full _ sink _ _ 0 given _ limit full
    obtain ⟨_, _, _, _, written'⟩ := @reportFrom_of_full _ sink _ _ 0 (same.trans given) _ limit full
    rw [report, report, written, written']
    exact ⟨rfl, rfl⟩

/-- When a sink gets full before the values end, it makes no difference what stands behind them. -/
theorem report_congr_of_full (given : run.values = delivery vs final) (grows : vs.map .ok <+: run'.values)
    {most : Nat} (limit : sink.capacity = some most)
    (full : most - sink.content.size < (linesOf vs).length) :
    (run'.report sink).result = (run.report sink).result ∧
      (run'.report sink).sink = (run.report sink).sink := by
  obtain ⟨ws, last, given'⟩ := run'.exists_delivery
  obtain ⟨others, lines⟩ := linesOf_mono (prefix_of_delivery (given' ▸ grows))
  have full' : most - sink.content.size < (linesOf ws).length := by
    rw [← lines, List.length_append]
    exact Nat.lt_add_right _ full
  obtain ⟨_, _, _, _, written⟩ := @reportFrom_of_full _ sink _ _ 0 given _ limit full
  obtain ⟨_, _, _, _, written'⟩ := @reportFrom_of_full _ sink _ _ 0 given' _ limit full'
  rw [report, report, written, written', ← lines, List.take_append_of_le_length (Nat.le_of_lt full)]
  exact ⟨rfl, rfl⟩

/-- A report that succeeds has a run without a failure. -/
theorem values_of_report (succeeds : (run.report sink).result = .ok count) : ∃ vs, run.values = delivery vs none := by
  obtain ⟨vs, _ | failure, given⟩ := run.exists_delivery
  · exact ⟨vs, given⟩
  · obtain fits | ⟨most, limit, full⟩ := sink.fits_or_full (linesOf vs)
    · rw [report, reportFrom_of_fits given fits] at succeeds
      cases succeeds
    · obtain ⟨_, _, _, _, written⟩ := @reportFrom_of_full _ sink _ _ 0 given _ limit full
      rw [report, written] at succeeds
      cases succeeds

end Run

/-! ## Sinks without a limit -/

/-- A sink with room for everything, which can be flushed. -/
structure Sink.Free (sink : Sink) : Prop where
  unlimited : sink.capacity = none
  sound : sink.flushFails = false

theorem Sink.free_empty : ({} : Sink).Free := ⟨rfl, rfl⟩

theorem Run.report_of_free {run : Run} {vs : List Float} {final : Option Failure}
    (given : run.values = delivery vs final) {sink : Sink} (free : sink.Free) :
    (run.report sink).result = final.elim (.ok vs.length) .error ∧
      (run.report sink).sink.content.toList = sink.content.toList ++ linesOf vs ∧
      (run.report sink).sink.Free := by
  have fits : sink.Fits (linesOf vs) := fun most limit => by
    rw [free.unlimited] at limit
    cases limit
  rw [Run.report, Run.reportFrom_of_fits given fits, Nat.zero_add]
  have sound : (sink.put (linesOf vs)).flushFails = false := free.sound
  cases final with
  | none => exact ⟨by simp [Sink.close, sound], Sink.toList_put _ _, free.unlimited, free.sound⟩
  | some failure => exact ⟨rfl, Sink.toList_put _ _, free.unlimited, free.sound⟩

/-- A report writes what its run gives: values `vs`, and perhaps a failure `final` behind them.
    * If all lines fit, they are what the sink holds.  Then the failure of the run is the result, and
      nothing is flushed; without one the sink is flushed once, and the result is the failure of the
      flush or the number of values.
    * If they do not, the sink holds as much of them as fits, nothing is flushed, and the result is that
      the sink is full, whatever the run would have come to.  The last value that was asked for is the
      one whose line did not fit. -/
theorem report_writes_values (table : OperatorTable) (layout : Layout) (source : Source)
    (capacity : Option Nat) (flushFails : Bool) :
    let run := Run.ofSource table layout source
    let report := run.report { capacity := capacity, flushFails := flushFails }
    ∃ (vs : List Float) (final : Option Failure),
      run.values = vs.map .ok ++ (final.map .error).toList ∧
      ((∀ most, capacity = some most → (linesOf vs).length ≤ most) →
        report.sink.content.toList = linesOf vs ∧ report.run = run.after (vs.length + 1) ∧
        (∀ failure, final = some failure →
          report.result = .error failure ∧ report.sink.flushes = 0) ∧
        (final = none → report.sink.flushes = 1 ∧
          report.result = if flushFails then .error (.io "flush failed") else .ok vs.length)) ∧
      ∀ most, capacity = some most → most < (linesOf vs).length →
        report.sink.content.toList = (linesOf vs).take most ∧ report.sink.flushes = 0 ∧
        report.result = .error (.io "sink full") ∧
        ∃ k < vs.length, (linesOf (vs.take k)).length ≤ most ∧
          most < (linesOf (vs.take (k + 1))).length ∧ report.run = run.after (k + 1) := by
  intro run report
  obtain ⟨vs, final, given⟩ := run.exists_delivery
  refine ⟨vs, final, given, fun fits => ?_, fun most limit full => ?_⟩
  · have written : run.reportFrom { capacity := capacity, flushFails := flushFails } 0 = _ :=
      Run.reportFrom_of_fits given fits
    rw [show report = _ from written, Nat.zero_add]
    refine ⟨?_, rfl, ?_, ?_⟩
    · cases final <;> simp [Sink.close, Sink.flush, Sink.put]
    · rintro failure rfl
      exact ⟨rfl, rfl⟩
    · rintro rfl
      exact ⟨rfl, rfl⟩
  · obtain ⟨k, less, enough, few, written⟩ :=
      @Run.reportFrom_of_full _ { capacity := capacity, flushFails := flushFails } _ _ 0 given _ limit full
    rw [show report = _ from written]
    exact ⟨by simp [Sink.put], rfl, rfl, k, less, enough, few, rfl⟩

end Polish
