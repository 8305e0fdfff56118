import Polish.Proofs.Alike
import Polish.Proofs.Causality

/-! # Sources one behind the other

A run that has come to the end of whole lines without a failure leaves no trace but the number of these
lines: what stands behind them gives what it would give alone, further down.

* `next_lower`: when more lines stand above it, a stream gives the same items further down.
* `values_of_used_up`: where the line held is used up, a run goes on like one that starts there.
* `exists_values_more`: to go along complete lines is the same, whatever stands behind them.
* `values_append` puts this together for two sources.
-/

namespace Polish

/-! ## Further down -/

def Place.lower (n : Nat) (p : Place) : Place :=
  { p with line := p.line + n }

/-- The diagnostic when `n` more lines stand above the one it is about. -/
def Diagnostic.lower (n : Nat) (d : Diagnostic) : Diagnostic :=
  { d with place := d.place.map (Place.lower n) }

namespace TokenStream

def lowerItem (n : Nat) : Except Failure Token → Except Failure Token
  | .ok token => .ok { token with place := token.place.lower n }
  | .error failure => .error (failure.mapDiagnostic (.lower n))

/-- The stream when `n` more lines, of `size` bytes, stand above the one that it holds. -/
def lower (s : TokenStream) (n size : Nat) : TokenStream :=
  { s with line := s.line + n, consumed := s.consumed + size }

variable {s s' : TokenStream} {n size : Nat} {result : Except Failure Token × TokenStream}

theorem ending_lower (counted : 0 < s.line) (reached : Terminator) :
    .ok ((s.lower n size).ending reached) = lowerItem n (.ok (s.ending reached)) := by
  simp only [lowerItem, ending, lower, Token.ofEnding, Place.lower, Except.ok.injEq]
  rw [Nat.max_eq_left counted, Nat.max_eq_left (Nat.le_add_right_of_le counted)]

theorem onLine?_lower (counted : 0 < s.line) :
    (s.lower n size).onLine? =
      s.onLine?.map fun result => (lowerItem n result.1, result.2.lower n size) := by
  rw [onLine?, onLine?, show Lexeme.findAt? (s.lower n size).text (s.lower n size).offset =
    Lexeme.findAt? s.text s.offset from rfl]
  cases Lexeme.findAt? s.text s.offset with
  | some found =>
    obtain ⟨start, chars | c⟩ := found <;> rfl
  | none =>
    simp only [ending_lower counted]
    rw [show (s.lower n size).owesEnd = s.owesEnd from rfl]
    cases s.owesEnd <;> rfl

theorem hold_advance_lower (read : Nat) (unread : List Read) (text : List Char) :
    ((s.lower n size).advance read unread).hold text =
      ((s.advance read unread).hold text).lower n size := by
  simp only [hold, advance, lower]
  rw [Nat.add_right_comm s.line, Nat.add_right_comm s.consumed]
  rfl

theorem Skips.lower (skips : Skips s s') (counted : 0 < s.line) (n size : Nat) :
    Skips (s.lower n size) (s'.lower n size) ∧ 0 < s'.line := by
  induction skips with
  | none => exact ⟨.none _, counted⟩
  | line nothing reads line _ ih =>
    obtain ⟨skips, counted'⟩ := ih (Nat.succ_pos _)
    refine ⟨.line ?_ reads line (hold_advance_lower _ _ _ ▸ skips), counted'⟩
    rw [onLine?_lower counted, nothing, Option.map_none]

theorem Answers.lower (answers : s.Answers result) (counted : 0 < s.line) :
    (s.lower n size).Answers (lowerItem n result.1, result.2.lower n size) := by
  have used (nothing : s.onLine? = none) : (s.lower n size).onLine? = none := by
    rw [onLine?_lower counted, nothing, Option.map_none]
  cases answers with
  | onLine answered => exact .onLine (by rw [onLine?_lower counted, answered, Option.map_some])
  | @failed read unread message nothing reads failed =>
    have answers := Answers.failed (used nothing) (s := s.lower n size) reads failed
    rwa [show (s.lower n size).advance read.size unread = (s.advance read.size unread).lower n size by
      simp only [advance, TokenStream.lower, Nat.add_right_comm]] at answers
  | ended nothing reads =>
    rw [← ending_lower counted]
    exact .ended (used nothing) reads

/-- When more lines stand above it, a stream gives the same item further down. -/
theorem next_lower (idle : s.lookahead = none) (counted : 0 < s.line) :
    (s.lower n size).next = (lowerItem n s.next.1, s.next.2.lower n size) ∧ 0 < s.next.2.line := by
  obtain ⟨token, looked, _⟩ | ⟨_, finished, taken⟩ | ⟨s₀, ready, skips, answers⟩ := s.next_cases
  · rw [idle] at looked
    cases looked
  · rw [taken, next_of_finished (s := s.lower n size) idle finished, ending_lower counted]
    exact ⟨rfl, counted⟩
  · obtain ⟨skips', counted'⟩ := skips.lower counted n size
    have ready' : (s.lower n size).Ready := ⟨idle, ready.unfinished⟩
    rw [ready'.next_of_skips skips', (ready'.of_skips skips').next_of_answers (answers.lower counted')]
    exact ⟨rfl, answers.line_eq ▸ counted'⟩

theorem after_lower (idle : s.lookahead = none) (counted : 0 < s.line) (n size k : Nat) :
    (s.lower n size).after k = (s.after k).lower n size ∧ 0 < (s.after k).line := by
  induction k with
  | zero => exact ⟨rfl, counted⟩
  | succ k ih =>
    obtain ⟨after, counted'⟩ := ih
    obtain ⟨next, counted''⟩ := next_lower (lookahead_after idle k) counted'
    rw [after_succ, after_succ, after, next]
    exact ⟨rfl, counted''⟩

theorem stepsAlike_lower (idle : s.lookahead = none) (counted : 0 < s.line) (n size : Nat) :
    StepsAlike (fun d d' => d.lower n = d') s (s.lower n size) where
  layout := rfl
  alike k := by
    obtain ⟨after, counted'⟩ := after_lower idle counted n size k
    rw [after, (next_lower (lookahead_after idle k) counted').1]
    rcases (s.after k).next with ⟨failure | token, s'⟩
    · cases failure with
      | malformed d => exact .error (.malformed rfl)
      | io message => exact .error (.io message)
      | mismatch m => exact .error (.mismatch m)
    · exact .ok rfl rfl fun _ => rfl

end TokenStream

open TokenStream OperatorTable

variable {source : Source} {table : OperatorTable} {s t : TokenStream} {lead : List Read}

/-- The result when `n` more lines stand above the source. -/
def lowerResult (n : Nat) : Except Failure Float → Except Failure Float :=
  Except.mapError (Failure.mapDiagnostic (.lower n))

theorem lowerResult_of_alike {n : Nat} {result result' : Except Failure Float}
    (alike : ResultAlike (fun d d' => d.lower n = d') result result') :
    lowerResult n result = result' := by
  cases alike with
  | ok => rfl
  | error alike =>
    cases alike with
    | malformed same => exact congrArg (fun d => Except.error (Failure.malformed d)) same
    | io => rfl
    | mismatch => rfl

theorem values_lower (table : OperatorTable) (idle : s.lookahead = none) (counted : 0 < s.line)
    (n size : Nat) :
    (⟨table, s.lower n size, false⟩ : Run).values =
      (⟨table, s, false⟩ : Run).values.map (lowerResult n) := by
  have alike := (values_alike table (stepsAlike_lower idle counted n size)).imp
    fun _ _ => lowerResult_of_alike
  rw [← List.forall₂_map_left_iff, List.forall₂_eq_eq_eq] at alike
  exact alike.symm

theorem nextValue_of_failed_read {message : String} {s' : TokenStream}
    (lost : s.next = (.error (.io message), s')) :
    table.nextValue s = (.error (.io message), s') := by
  have failed : table.expression s = (.error (.io message), s') := by rw [expression_eq, lost]
  refine nextValue_of_failure ?_ failed
  rintro ⟨token, item, _⟩
  rw [lost] at item
  cases item

/-- Where the line held is used up, a run goes on like one that starts there, further down. -/
theorem values_of_used_up (table : OperatorTable) (ready : s.Ready) (nothing : s.onLine? = none)
    (unread : s.unread = source.reads) :
    (⟨table, s, false⟩ : Run).values =
      (Run.ofSource table s.layout source).values.map (lowerResult s.line) := by
  obtain ⟨reads, same⟩ : ∃ reads, source.reads = reads := ⟨_, rfl⟩
  have fresh : (ofSource s.layout source).Ready := ⟨rfl, rfl⟩
  have unread' : (ofSource s.layout source).unread = reads := same
  rw [same] at unread
  rw [Run.ofSource]
  cases reads with
  | nil =>
    have ended : s.AtEnd := ⟨_, by rw [ready.next_at_end nothing unread], rfl⟩
    have ended' : (ofSource s.layout source).AtEnd := ⟨_, by rw [fresh.next_at_end rfl unread'], rfl⟩
    rw [Run.values_of_end (nextValue_of_atEnd ended), Run.values_of_end (nextValue_of_atEnd ended')]
    rfl
  | cons read reads =>
    obtain ⟨bytes, message | text⟩ := read
    · have lost := ready.next_of_answers (.failed nothing unread rfl)
      have lost' := fresh.next_of_answers (.failed rfl unread' rfl)
      rw [Run.values_of_failure (nextValue_of_failed_read lost),
        Run.values_of_failure (nextValue_of_failed_read lost')]
      rfl
    -- both hold the same line now, and the one further down counts the lines above it
    · have held : (((ofSource s.layout source).advance bytes reads).hold text).lower s.line s.consumed =
          (s.advance bytes reads).hold text := by
        simp only [hold, advance, TokenStream.lower, ofSource, ready.idle, ready.unfinished, Nat.zero_add]
        rw [Nat.add_comm 1, Nat.add_comm bytes]
      rw [Run.values_congr table (ready.next_of_read nothing unread), ← held,
        Run.values_congr table (fresh.next_of_read rfl unread')]
      exact values_lower table rfl (Nat.succ_pos _) _ _

/-! ## Along complete lines -/

/-- Where all lines are complete, a run goes along them in the same way whatever stands behind. -/
theorem exists_values_more (follows : s.Follows source) (ready : s.Ready)
    (closed : ∀ read ∈ source.reads, ∀ text, read.text? = some text → text.getLast? = some '\n')
    (clean : ∀ result ∈ (⟨table, s, false⟩ : Run).values, ∃ v, result = .ok v) (later : List Read) :
    ∃ e : TokenStream, e.Follows source ∧ e.Ready ∧ e.AtEnd ∧ e.layout = s.layout ∧
      (⟨table, s.more later, false⟩ : Run).values =
        (⟨table, s, false⟩ : Run).values ++ (⟨table, e.more later, false⟩ : Run).values := by
  induction size : s.size using Nat.strongRecOn generalizing s with
  | ind size ih =>
    obtain ⟨n, result, outcome⟩ := exists_outcome table s
    obtain ⟨s₁, _, value, _, goesOn⟩ := nextValue_of_outcome outcome
    obtain failure | _ | v := result
    · rw [Run.values_of_failure value] at clean
      obtain ⟨v, same⟩ := clean _ List.mem_cons_self
      cases same
    · refine ⟨s, follows, ready, atEnd_of_nextValue value, rfl, ?_⟩
      rw [Run.values_of_end value, List.nil_append]
    · have less := size_nextValue_lt value
      obtain rfl := goesOn v rfl
      have whole : source.reads = source.reads ++ [] := (List.append_nil _).symm
      have notLast := goesOn_of_outcome follows whole closed outcome rfl (.inl ⟨v, rfl⟩) (Nat.zero_le _)
      obtain ⟨t, after, after', outcome'⟩ := outcome_fork (t := s) (by rwa [more_nil]) whole closed
        (by rwa [more_nil]) rfl (.inl ⟨v, rfl⟩) (Nat.zero_le _) later
      rw [more_nil, more_nil] at after
      obtain ⟨_, _, value', _, goesOn'⟩ := nextValue_of_outcome outcome'
      obtain rfl := goesOn' v rfl
      rw [Run.values_of_value value] at clean ⊢
      obtain ⟨e, follows', ready', atEnd, layout, values⟩ := ih _ (size ▸ less)
        (follows_of_value follows outcome) (ready.after notLast)
        (fun result member => clean result (List.mem_cons_of_mem _ member)) rfl
      refine ⟨e, follows', ready', atEnd, layout.trans (layout_after s n), ?_⟩
      rw [Run.values_of_value value', after', ← after, values, List.cons_append]

/-- Where the input is at its end, the line held is used up once all lines are skipped. -/
theorem exists_used_up (follows : s.Follows source) (ready : s.Ready) (atEnd : s.AtEnd)
    (later : List Read) :
    ∃ e : TokenStream, e.Ready ∧ e.onLine? = none ∧ e.unread = later ∧ e.layout = s.layout ∧
      e.line = source.reads.length ∧ (s.more later).next = e.next := by
  obtain ⟨token, item, last⟩ := atEnd
  obtain ⟨s₀, skips, answers⟩ := ready.exists_answers
  have follows₀ := follows.of_skips ready skips
  generalize s.next = result at item answers
  cases answers with
  | failed => cases item
  | onLine answered =>
    rw [isLast_of_answered answered item] at last
    contradiction
  | ended nothing reads =>
    obtain ⟨t, same, skips'⟩ := Skips.fork (t := s) (by rwa [more_nil]) (Nat.zero_le _) later
    rw [more_nil] at same
    subst same
    have ready' : (s.more later).Ready := ⟨ready.idle, ready.unfinished⟩
    obtain ⟨made, all, _, count, _⟩ := follows₀.reads
    have layout : s₀.layout = s.layout := layout_of_skips skips
    refine ⟨s₀.more later, ready'.of_skips skips', ?_, ?_, layout, ?_, ready'.next_of_skips skips'⟩
    · rw [onLine?_more, nothing, Option.map_none]
    · rw [unread_more, reads, List.nil_append]
    · rw [all, reads, List.append_nil, count]
      rfl

theorem stops_of_holds {cs : List Char} (holds : source.Holds cs)
    (closed : ∀ last ∈ cs.getLast?, last = '\n') : ∀ last ∈ source.signals.getLast?, last.stops = true := by
  intro last member
  rw [holds] at member
  obtain rfl | ⟨front, c, rfl⟩ := List.eq_nil_or_concat' cs
  · cases member
  · obtain rfl := closed c (by simp)
    rw [Text.encode_append, Text.encode_lineFeed_cons, List.map_append, List.map_cons] at member
    rw [List.getLast?_append] at member
    cases member
    rfl

/-- A source behind one that ends with a line feed, on which a run does not fail: the run on both gives
    what the run on the first one gives and then what the run on the second one gives, with every
    diagnostic as many lines further down as the first source has. -/
theorem values_append (table : OperatorTable) (layout : Layout) {first second : Source} {cs : List Char}
    (holds : first.Holds cs) (closed : ∀ last ∈ cs.getLast?, last = '\n')
    (clean : ∀ result ∈ (Run.ofSource table layout first).values, ∃ v, result = .ok v) :
    (Run.ofSource table layout (first ++ second)).values =
      (Run.ofSource table layout first).values ++
        (Run.ofSource table layout second).values.map
          (Except.mapError (Failure.mapDiagnostic (.lower (linesBy '\n' cs).length))) := by
  have stops := stops_of_holds holds closed
  have reads : (first ++ second).reads = first.reads ++ second.reads := by
    rw [Source.reads, Source.signals, List.flatMap_append]
    exact Source.reads_append stops _
  have whole : Run.ofSource table layout (first ++ second) =
      ⟨table, (ofSource layout first).more second.reads, false⟩ := by
    rw [Run.ofSource, ofSource, reads]
    rfl
  obtain ⟨e, follows, ready, atEnd, same, values⟩ := exists_values_more (follows_ofSource layout first)
    ⟨rfl, rfl⟩ (fun _ member _ => Source.getLast?_of_closed stops member) clean second.reads
  obtain ⟨e', ready', nothing, unread, same', line, next⟩ := exists_used_up follows ready atEnd second.reads
  have behind := values_of_used_up table ready' nothing unread
  rw [← Run.values_congr table next, same', same, line, Source.reads_of_text holds,
    List.length_map] at behind
  rw [whole, values, behind]
  rfl

/-- Behind one line with a number, the word of no operator is reported on the second line. -/
theorem values_append_behind_number :
    (Source.ofString "7\n").Holds "7\n".toList ∧
      ∃ v d, (Run.ofSource basicTable .linewise (.ofString "7\n" ++ .ofString "x")).values =
          [.ok v, .error (.malformed d)] ∧
        d.cause = .unknownOperator "x" ∧ d.place = some ⟨2, 0, 1⟩ := by
  have holds := Source.holds_ofString "7\n"
  let start : TokenStream := .ofSource .linewise (.ofString "7\n")
  let behind : TokenStream := .ofSource .linewise (.ofString "x")
  obtain ⟨v, numeral⟩ : ∃ v, basicTable.node? start.next.1 = some (.number v) := ⟨_, rfl⟩
  have reads : basicTable.Reads start (Expression.number v).preorder := by
    rw [Expression.preorder]
    exact reads_cons.2 ⟨numeral, rfl⟩
  obtain ⟨token, item, kind⟩ : ∃ token, (start.after 1).next.1 = .ok token ∧
      token.kind = .ending .endOfLine := ⟨_, rfl, rfl⟩
  obtain ⟨_, _, value, _, same⟩ := nextValue_of_outcome (.line reads rfl item kind)
  obtain rfl := same v rfl
  have ended : (start.after 2).AtEnd := ⟨_, rfl, rfl⟩
  have first : (Run.ofSource basicTable .linewise (.ofString "7\n")).values = [.ok v] := by
    rw [show (Run.ofSource basicTable .linewise (.ofString "7\n")).values = _ from
      Run.values_of_value value]
    exact congrArg _ (Run.values_of_end (nextValue_of_atEnd ended))
  obtain ⟨word, item', kind', lexeme, place⟩ : ∃ word, (behind.after 0).next.1 = .ok word ∧
      word.kind = .word ∧ word.lexeme = "x" ∧ word.place = ⟨1, 0, 1⟩ := ⟨_, rfl, rfl, rfl, rfl⟩
  have fails : basicTable.FailsAt behind 0 := by decide +kernel
  obtain ⟨_, _, refused, _⟩ := nextValue_of_outcome (.refused item' (.unknown fails kind'))
  have second : (Run.ofSource basicTable .linewise (.ofString "x")).values = _ :=
    Run.values_of_failure refused
  have clean : ∀ result ∈ (Run.ofSource basicTable .linewise (.ofString "7\n")).values,
      ∃ v, result = .ok v := by
    rw [first]
    exact fun result member => ⟨v, List.mem_singleton.1 member⟩
  have feed : "7\n".toList.getLast? = some '\n' := by decide
  have closed : ∀ last ∈ "7\n".toList.getLast?, last = '\n' := fun last member =>
    (Option.some.inj (feed.symm.trans member)).symm
  have values := @values_append basicTable .linewise _ (.ofString "x") _ holds closed clean
  rw [first, second] at values
  refine ⟨holds, v, _, values, ?_, ?_⟩
  · rw [← lexeme]
    rfl
  · simp only [Diagnostic.lower, TokenStream.diagnose, Diagnostic.located, place]
    decide

end Polish
