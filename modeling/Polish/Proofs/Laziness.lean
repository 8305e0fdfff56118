import Polish.Proofs.Stretches
import Polish.Proofs.ValueOutcome

/-! # What is taken from a source

A stream takes whole lines from its source, and takes a line only when an item on it is asked for.

* `Counts`: what was taken are the reads of the lines up to the one held.
* `Follows.next`: what one item has taken, for each kind of item.
* `spends_of_outcome`: what one value has taken, and each failure.
* `Run.spends_pull` and `Run.pull_of_stopped` say it for every pull of a run.
-/

namespace Polish

/-- Whether the input came to its end too early. -/
def Cause.AtInputEnd : Cause → Prop
  | missingExpression reached | missingOperand _ _ _ reached => reached = .endOfInput
  | _ => False

namespace TokenStream

variable {source : Source} {s s' : TokenStream}

/-- What was taken from the source are the reads of its first lines, and the last of them is held. -/
structure Counts (source : Source) (s : TokenStream) : Prop where
  reads : ∃ made, source.reads = made ++ s.unread ∧ (∀ read ∈ made, read.text?.isSome) ∧
    made.length = s.line ∧ bytesIn made = s.consumed ∧ (textsOf made).getLast?.getD [] = s.text

/-- The end of the line held is still to be given, if there is one. -/
def Owes (s : TokenStream) : Prop :=
  s.layout = .linewise → s.owesEnd = decide (s.text.getLast? = some '\n')

/-- The stream stands behind a word. -/
structure Held (s : TokenStream) : Prop where
  counted : 0 < s.line
  unfinished : s.finished = false
  owes : s.Owes

structure Follows (source : Source) (s : TokenStream) : Prop extends Counts source s where
  idle : s.lookahead = none
  finished : s.finished = true → s.unread = []
  counted : s.owesEnd = true → 0 < s.line
  owes : Lexeme.next? s.rest ≠ none → s.Owes

/-- The stream stands right behind a token that it has given. -/
structure Gave (source : Source) (token : Token) (s : TokenStream) : Prop where
  follows : s.Follows source
  line_eq : token.place.line = max s.line 1
  all : token.isLast = true → s.unread = []
  counted : token.isLast = false → 0 < s.line
  held : (∀ reached, token.kind ≠ .ending reached) → s.Held

/-- What an item says about the stream behind it. -/
def Met (source : Source) (item : Except Failure Token) (s : TokenStream) : Prop :=
  match item with
  | .ok token => s.Gave source token
  | .error (.malformed d) =>
    s.Counts source ∧ ¬ d.cause.AtInputEnd ∧ ∃ place, d.place = some place ∧ place.line = s.line
  | .error (.io message) =>
    ∃ made size, source.reads = made ++ ⟨size, .error message⟩ :: s.unread ∧
      (∀ read ∈ made, read.text?.isSome) ∧ s.consumed = bytesIn made + size
  | .error (.mismatch _) => False

theorem follows_ofSource (layout : Layout) (source : Source) :
    (ofSource layout source).Follows source where
  reads := ⟨[], rfl, by simp, rfl, rfl, rfl⟩
  idle := rfl
  finished := by simp [ofSource]
  counted := by simp [ofSource]
  owes piece := absurd rfl piece

theorem Follows.hold (follows : s.Follows source) (unfinished : s.finished = false) {read : Read}
    {unread : List Read} {text : List Char} (reads : s.unread = read :: unread)
    (line : read.outcome = .ok text) : ((s.advance read.size unread).hold text).Follows source := by
  obtain ⟨made, all, texts, count, bytes, _⟩ := follows.reads
  have some : read.text? = some text := Read.text?_eq_some_iff.2 line
  refine ⟨⟨made ++ [read], ?_, ?_, ?_, ?_, ?_⟩, follows.idle, fun done => ?_,
    fun _ => Nat.succ_pos _, fun _ layout => ?_⟩
  · rw [all, reads, List.append_assoc, List.singleton_append]
    rfl
  · intro other member
    obtain earlier | last := List.mem_append.1 member
    · exact texts other earlier
    · rw [List.mem_singleton.1 last, some]
      rfl
  · rw [List.length_append, count]
    rfl
  · rw [bytesIn_append, bytes]
    rfl
  · rw [textsOf, List.filterMap_append, List.filterMap_cons_some some, List.filterMap_nil,
      List.getLast?_concat]
    rfl
  · rw [show ((s.advance read.size unread).hold text).finished = s.finished from rfl, unfinished] at done
    contradiction
  · have layout : s.layout = .linewise := layout
    simp [TokenStream.hold, advance, layout]

theorem Follows.of_skips (follows : s.Follows source) (ready : s.Ready) (skips : Skips s s') :
    s'.Follows source := by
  induction skips with
  | none => exact follows
  | line nothing reads line _ ih =>
    exact ih (follows.hold ready.unfinished reads line) ⟨ready.idle, ready.unfinished⟩

theorem Counts.line_pos (counts : s.Counts source) (some : s.text ≠ []) : 0 < s.line := by
  obtain ⟨made, _, _, count, _, last⟩ := counts.reads
  rw [← count]
  refine List.length_pos_iff.2 fun none => some ?_
  rw [← last, none]
  rfl

theorem Follows.gave_ending (follows : s.Follows source) (all : s.unread = []) :
    s.Gave source (s.ending .endOfInput) where
  follows := follows
  line_eq := rfl
  all _ := all
  counted goesOn := by cases goesOn
  held kind := absurd rfl (kind .endOfInput)

theorem Follows.met_of_onLine? (follows : s.Follows source) (unfinished : s.finished = false)
    {result : Except Failure Token × TokenStream} (answered : s.onLine? = some result) :
    Met source result.1 result.2 := by
  obtain ⟨item, s₁⟩ := result
  obtain ⟨before, blanks, l, after, found, rfl, rfl⟩ | ⟨nothing, owed, rfl, rfl⟩ :=
    onLine?_cases answered
  · have piece : Lexeme.next? s.rest ≠ none := by
      rw [found.next?_eq]
      exact Option.some_ne_none _
    have counted : 0 < s.line := follows.line_pos <| by
      rw [found.text_eq]
      simp [Lexeme.chars_ne_nil_of_next? found.next?_eq]
    cases l with
    | stray c => exact ⟨⟨follows.reads⟩, id, _, rfl, rfl⟩
    | word chars => exact {
        follows := ⟨⟨follows.reads⟩, follows.idle, follows.finished, follows.counted,
          fun _ => follows.owes piece⟩
        line_eq := (Nat.max_eq_left counted).symm
        all := fun last => by rw [Token.isLast_ofWord] at last; contradiction
        counted := fun _ => counted
        held := fun _ => ⟨counted, unfinished, follows.owes piece⟩ }
  · exact {
      follows := ⟨⟨follows.reads⟩, follows.idle, follows.finished, (fun owed => by cases owed),
        fun piece => absurd nothing piece⟩
      line_eq := rfl
      all := fun last => by cases last
      counted := fun _ => follows.counted owed
      held := fun kind => absurd rfl (kind .endOfLine) }

theorem Follows.met_of_answers (follows : s.Follows source) (ready : s.Ready)
    {result : Except Failure Token × TokenStream} (answers : s.Answers result) :
    Met source result.1 result.2 := by
  cases answers with
  | onLine answered => exact follows.met_of_onLine? ready.unfinished answered
  | ended nothing reads =>
    have ended : ({ s with finished := true } : TokenStream).Follows source :=
      ⟨⟨follows.reads⟩, follows.idle, fun _ => reads, follows.counted, follows.owes⟩
    exact ended.gave_ending reads
  | @failed read unread message nothing reads failed =>
    obtain ⟨made, all, texts, _, bytes, _⟩ := follows.reads
    have same : read = ⟨read.size, .error message⟩ := by rw [← failed]
    refine ⟨made, read.size, ?_, texts, ?_⟩
    · rw [all, reads, ← same]
      rfl
    · rw [bytes]
      rfl

/-- What one item has taken from the source. -/
theorem Follows.next (follows : s.Follows source) : Met source s.next.1 s.next.2 := by
  obtain ⟨token, looked, _⟩ | ⟨_, finished, taken⟩ | ⟨s', ready, skips, answers⟩ := s.next_cases
  · rw [follows.idle] at looked
    cases looked
  · rw [taken]
    exact follows.gave_ending (follows.finished finished)
  · exact (follows.of_skips ready skips).met_of_answers (ready.of_skips skips) answers

theorem Follows.gave (follows : s.Follows source) {token : Token} (item : s.next.1 = .ok token) :
    s.next.2.Gave source token := by
  have met := follows.next
  rw [item] at met
  exact met

/-! ## Lines -/

theorem Counts.consumed_eq (counts : s.Counts source) :
    s.consumed = bytesIn (source.reads.take s.line) := by
  obtain ⟨made, all, _, count, bytes, _⟩ := counts.reads
  rw [all, ← count, List.take_left, bytes]

theorem Counts.consumed_eq_of_all (counts : s.Counts source) (all : s.unread = []) :
    s.consumed = source.bytes.length := by
  obtain ⟨made, reads, _, _, bytes, _⟩ := counts.reads
  rw [all, List.append_nil] at reads
  rw [← bytes, ← reads, Source.reads, Source.bytesIn_readsFrom, Source.bytes]

theorem Counts.line_pos_of_all (counts : s.Counts source) (all : s.unread = [])
    (counts' : s'.Counts source) (counted : 0 < s'.line) : 0 < s.line := by
  obtain ⟨made, reads, _, count, _⟩ := counts.reads
  obtain ⟨made', reads', _, count', _⟩ := counts'.reads
  have same := congrArg List.length (reads.symm.trans reads')
  rw [all, List.append_nil, List.length_append] at same
  omega

theorem Counts.exists_last (counts : s.Counts source) (counted : 0 < s.line) :
    ∃ before read, source.reads = before ++ read :: s.unread ∧ read.text? = some s.text := by
  obtain ⟨made, all, texts, count, _, last⟩ := counts.reads
  obtain rfl | ⟨before, read, rfl⟩ := List.eq_nil_or_concat' made
  · rw [← count] at counted
    contradiction
  · obtain ⟨text, some⟩ := Option.isSome_iff_exists.1 (texts read (by simp))
    rw [textsOf, List.filterMap_append, List.filterMap_cons_some some, List.filterMap_nil,
      List.getLast?_concat, Option.getD_some] at last
    exact ⟨before, read, by rw [all, List.append_assoc, List.singleton_append], last ▸ some⟩

theorem Counts.unread_eq_nil (counts : s.Counts source) (counted : 0 < s.line)
    (open_ : s.text.getLast? ≠ some '\n') : s.unread = [] := by
  obtain ⟨before, read, reads, line⟩ := counts.exists_last counted
  by_contra more
  exact open_ (Source.getLast?_of_reads reads more line)

/-- Where lines count, the end of a line that a word stands on is still to come. -/
theorem Held.onLine?_ne_none (held : s.Held) (layout : s.layout = .linewise)
    (feed : s.text.getLast? = some '\n') : s.onLine? ≠ none := by
  intro nothing
  have owed := held.owes layout
  rw [(onLine?_eq_none_iff.1 nothing).2, feed] at owed
  simp at owed

/-- Where lines count, the item behind a word is taken from the same line. -/
theorem Follows.next_of_held (follows : s.Follows source) (held : s.Held)
    (layout : s.layout = .linewise) :
    s.next.2.line = s.line ∧ s.next.2.consumed = s.consumed := by
  -- if nothing is left of the line, not even its end, there is no other line
  have last : s.onLine? = none → s.unread = [] := fun nothing =>
    follows.unread_eq_nil held.counted fun feed => held.onLine?_ne_none layout feed nothing
  obtain ⟨token, looked, _⟩ | ⟨_, _, taken⟩ | ⟨s', ready, skips, answers⟩ := s.next_cases
  · rw [follows.idle] at looked
    cases looked
  · rw [taken]
    exact ⟨rfl, rfl⟩
  · cases skips with
    | line nothing reads => simp [last nothing] at reads
    | none =>
      generalize s.next = result at answers
      cases answers with
      | failed nothing reads => simp [last nothing] at reads
      | ended => exact ⟨rfl, rfl⟩
      | onLine answered =>
        obtain ⟨_, _, _, _, _, _, same⟩ | ⟨_, _, _, same⟩ := onLine?_cases answered <;> rw [same] <;>
          exact ⟨rfl, rfl⟩

end TokenStream

/-! ## The items of one value -/

section

open TokenStream OperatorTable

variable {source : Source} {table : OperatorTable} {s : TokenStream} {n : Nat}

theorem TokenStream.Gave.of_node {token : Token} (gave : s.Gave source token)
    (node : (table.node? (.ok token)).isSome) : token.place.line = s.line ∧ s.Held := by
  have held := gave.held fun reached same => by simp [node?, head?, same] at node
  exact ⟨gave.line_eq.trans (Nat.max_eq_left held.counted), held⟩

/-- Behind nodes the stream follows its source, and stands behind a word. -/
theorem TokenStream.Follows.after (follows : s.Follows source)
    (nodes : ∀ item ∈ s.results n, (table.node? item).isSome) :
    (s.after n).Follows source ∧ (n ≠ 0 → (s.after n).Held) := by
  induction n with
  | zero => exact ⟨follows, fun some => absurd rfl some⟩
  | succ n ih =>
    rw [results_succ] at nodes
    obtain ⟨here, _⟩ := ih fun item member => nodes item (List.mem_append_left _ member)
    have node := nodes _ (List.mem_append_right _ List.mem_cons_self)
    obtain ⟨token, item⟩ := exists_token_of_node? node
    have gave := here.gave item
    rw [after_succ]
    exact ⟨gave.follows, fun _ => (gave.of_node (item ▸ node)).2⟩

/-- Where lines count, nodes that follow each other stand on one line. -/
theorem TokenStream.Follows.lines (follows : s.Follows source) (layout : s.layout = .linewise)
    (nodes : ∀ item ∈ s.results n, (table.node? item).isSome) :
    ∀ item ∈ s.results n, ∃ token, item = .ok token ∧ token.place.line = (s.after n).line := by
  induction n with
  | zero => exact fun item member => (List.not_mem_nil member).elim
  | succ n ih =>
    rw [results_succ] at nodes ⊢
    have before := fun item member => nodes item (List.mem_append_left _ member)
    have node := nodes _ (List.mem_append_right _ List.mem_cons_self)
    obtain ⟨here, held⟩ := follows.after before
    obtain ⟨token, same⟩ := exists_token_of_node? node
    intro item member
    rw [after_succ]
    obtain earlier | last := List.mem_append.1 member
    · have some : n ≠ 0 := by
        rintro rfl
        contradiction
      obtain ⟨other, rfl, line⟩ := ih before item earlier
      have stays := here.next_of_held (held some) ((layout_after s n).trans layout)
      exact ⟨other, rfl, line.trans stays.1.symm⟩
    · obtain rfl := List.mem_singleton.1 last
      exact ⟨token, same, ((here.gave same).of_node (same ▸ node)).1⟩

/-! ## What one value has taken -/

/-- What is taken from the source when a value was asked for in front of `s` and `result` came.
    * For a value it is everything up to the line of the last token of its expression, on which all the
      others stand as well where lines count.
    * For a syntax error it is everything up to the line that the error points at, and the whole source
      if the input has come to its end too early.
    * For a failed read it is everything up to the bytes that are lost.
    * At the end of the input it is the whole source. -/
def OperatorTable.Spends (table : OperatorTable) (source : Source) (s : TokenStream) (taken : Nat) :
    Option (Except Failure Float) → Prop
  | some (.ok v) =>
    ∃ (tree : Expression) (n : Nat) (last : Token), tree.value = v ∧ table.Reads s tree.preorder ∧
      tree.preorder.length = n + 1 ∧ (s.after n).next.1 = .ok last ∧
      taken = bytesIn (source.reads.take last.place.line) ∧
      (s.layout = .linewise → ∀ item ∈ s.results (n + 1),
        ∃ token, item = .ok token ∧ token.place.line = last.place.line)
  | some (.error (.malformed d)) =>
    ∃ place, d.place = some place ∧ taken = bytesIn (source.reads.take place.line) ∧
      (d.cause.AtInputEnd → taken = source.bytes.length)
  | some (.error (.io message)) =>
    ∃ made size later, source.reads = made ++ ⟨size, .error message⟩ :: later ∧
      (∀ read ∈ made, read.text?.isSome) ∧ taken = bytesIn made + size
  | some (.error (.mismatch _)) => False
  | none => taken = source.bytes.length

/-- A result as it is given by a run. -/
def pulled : Except Failure (Option Float) → Option (Except Failure Float)
  | .ok v => v.map .ok
  | .error failure => some (.error failure)

theorem spends_of_reads (follows : s.Follows source) {tree : Expression}
    (reads : table.Reads s tree.preorder) :
    table.Spends source s (s.after tree.preorder.length).consumed (some (.ok tree.value)) := by
  have nodes := nodes_of_reads reads
  obtain ⟨n, length⟩ : ∃ n, tree.preorder.length = n + 1 :=
    Nat.exists_eq_succ_of_ne_zero tree.length_preorder_ne_zero
  rw [length] at nodes ⊢
  have node := nodes _ (next_mem_results n.lt_succ_self)
  obtain ⟨last, item⟩ := exists_token_of_node? node
  obtain ⟨here, _⟩ := follows.after fun item member => nodes item (mem_results_of_le n.le_succ member)
  have gave := here.gave item
  have line := (gave.of_node (item ▸ node)).1
  rw [← after_succ] at gave line
  exact ⟨tree, n, last, rfl, reads, length, item, line ▸ gave.follows.consumed_eq,
    fun layout => line ▸ follows.lines layout nodes⟩

theorem OperatorTable.Refuses.isLast_iff {token : Token} {cause : Cause}
    (refuses : table.Refuses s token n cause) : token.isLast = true ↔ cause.AtInputEnd := by
  rw [Token.isLast_iff]
  cases refuses with
  | second reads layout kind => exact iff_of_false (kind .endOfInput) id
  | unknown fails kind => exact iff_of_false (by simp [kind]) id
  | missing fails kind => simp [kind, Cause.AtInputEnd]
  | unfinished fails kind => simp [kind, Cause.AtInputEnd]

/-- The end of the input is refused behind an operator only. -/
theorem OperatorTable.Refuses.ne_zero {token : Token} {cause : Cause}
    (refuses : table.Refuses s token n cause) (last : token.isLast = true) : n ≠ 0 := by
  have ending := Token.isLast_iff.1 last
  cases refuses with
  | second reads layout kind => exact absurd ending (kind .endOfInput)
  | unknown fails kind => simp [kind] at ending
  | missing fails kind => simp [kind] at ending
  | unfinished fails kind reads innermost => exact ne_zero_of_innermost reads innermost

theorem spends_of_refuses (follows : s.Follows source) {token : Token} {cause : Cause}
    (item : (s.after n).next.1 = .ok token) (refuses : table.Refuses s token n cause) :
    table.Spends source s (s.after (n + 1)).consumed
      (some (.error (.malformed ((s.after (n + 1)).diagnose cause token.place)))) := by
  obtain ⟨here, held⟩ := follows.after refuses.nodes
  have gave := here.gave item
  rw [← after_succ] at gave
  have counted : 0 < (s.after (n + 1)).line := by
    cases last : token.isLast with
    | false => exact gave.counted last
    | true =>
      exact gave.follows.line_pos_of_all (gave.all last) here.toCounts
        (held (refuses.ne_zero last)).counted
  refine ⟨token.place, rfl, ?_, fun early =>
    gave.follows.consumed_eq_of_all (gave.all (refuses.isLast_iff.2 early))⟩
  rw [gave.line_eq, Nat.max_eq_left counted, gave.follows.consumed_eq]

/-- Behind a value the stream still follows its source. -/
theorem follows_of_value (follows : s.Follows source) {v : Float}
    (outcome : table.Outcome s n (.ok (some v))) : (s.after n).Follows source := by
  cases outcome with
  | value reads => exact (follows.after (nodes_of_reads reads)).1
  | line reads layout item =>
    rw [after_succ]
    exact ((follows.after (nodes_of_reads reads)).1.gave item).follows

theorem spends_of_outcome (follows : s.Follows source) {result : Except Failure (Option Float)}
    (outcome : table.Outcome s n result) :
    table.Spends source s (s.after n).consumed (pulled result) := by
  cases outcome with
  | ended atEnd =>
    obtain ⟨token, item, last⟩ := atEnd
    have gave := follows.gave item
    exact gave.follows.consumed_eq_of_all (gave.all last)
  | value reads layout => exact spends_of_reads follows reads
  | @line tree token reached reads layout item kind =>
    obtain ⟨here, held⟩ := follows.after (nodes_of_reads reads)
    have stays := here.next_of_held (held tree.length_preorder_ne_zero)
      ((layout_after s _).trans layout)
    rw [after_succ, stays.2]
    exact spends_of_reads follows reads
  | @failure n failure item nodes =>
    have met := (follows.after (nodes_of_failure nodes)).1.next
    rw [item, ← after_succ] at met
    cases failure with
    | malformed d =>
      obtain ⟨counts, notEarly, place, at_, line⟩ := met
      exact ⟨place, at_, line ▸ counts.consumed_eq, fun early => absurd early notEarly⟩
    | io message =>
      obtain ⟨made, size, reads, texts, bytes⟩ := met
      exact ⟨made, size, _, reads, texts, bytes⟩
    | mismatch => exact met
  | refused item refuses => exact spends_of_refuses follows item refuses

/-! ## The pulls of a run -/

namespace Run

/-- The run after it was asked `k` times. -/
def after (run : Run) : Nat → Run
  | 0 => run
  | k + 1 => run.next?.2.after k

/-- What the run gives when it was asked `k` times before. -/
def pull (run : Run) (k : Nat) : Option (Except Failure Float) :=
  (run.after k).next?.1

/-- How many bytes of the source are taken when it has given that. -/
def taken (run : Run) (k : Nat) : Nat :=
  (run.after (k + 1)).stream.consumed

variable {run : Run} {k : Nat}

theorem after_of_finished (finished : run.finished = true) : run.after k = run := by
  induction k with
  | zero => rfl
  | succ k ih => rw [after, next?, if_pos finished, ih]

theorem finished_of_next? (notValue : ∀ v, run.next?.1 ≠ some (.ok v)) :
    run.next?.2.finished = true := by
  rw [next?] at notValue ⊢
  split at notValue
  · next finished => rw [if_pos finished, finished]
  · next going =>
    rw [if_neg going]
    split at notValue
    · exact absurd rfl (notValue _)
    · rfl
    · rfl

/-- After the end or a failure nothing more is given, and nothing more is taken. -/
theorem pull_of_stopped {j : Nat} (notValue : ∀ v, run.pull j ≠ some (.ok v)) (later : j < k) :
    run.pull k = none ∧ run.taken k = run.taken j := by
  obtain ⟨i, rfl⟩ := Nat.exists_eq_add_of_lt later
  induction j generalizing run with
  | succ j ih =>
    rw [Nat.add_right_comm j 1 i]
    exact ih (show ∀ v, run.next?.2.pull j ≠ some (.ok v) from notValue) (by omega)
  | zero =>
    have finished : run.next?.2.finished = true := finished_of_next? notValue
    rw [Nat.zero_add, pull, taken, taken, after, after, after_of_finished finished,
      after_of_finished finished]
    exact ⟨by rw [next?, if_pos finished], rfl⟩

theorem next?_of_outcome {result : Except Failure (Option Float)}
    (outcome : table.Outcome s n result) :
    (⟨table, s, false⟩ : Run).next?.1 = pulled result ∧
      (⟨table, s, false⟩ : Run).next?.2.stream.consumed = (s.after n).consumed := by
  obtain ⟨s₁, looked, value, rfl, _⟩ := nextValue_of_outcome outcome
  rw [next?, if_neg Bool.false_ne_true, value]
  obtain failure | _ | v := result <;> exact ⟨rfl, rfl⟩

/-- Where a run goes on, it goes on behind the items that its value took. -/
theorem next?_of_value {v : Float} (outcome : table.Outcome s n (.ok (some v))) :
    (⟨table, s, false⟩ : Run).next?.2 = ⟨table, s.after n, false⟩ := by
  obtain ⟨s₁, _, value, _, same⟩ := nextValue_of_outcome outcome
  rw [next?, if_neg Bool.false_ne_true, value, same v rfl]

theorem exists_outcome_of_value {v : Float}
    (first : (⟨table, s, false⟩ : Run).pull 0 = some (.ok v)) :
    ∃ n, table.Outcome s n (.ok (some v)) := by
  obtain ⟨n, result, outcome⟩ := exists_outcome table s
  have given : pulled result = some (.ok v) := (next?_of_outcome outcome).1.symm.trans first
  obtain failure | _ | w := result
  · cases given
  · cases given
  · cases given
    exact ⟨n, outcome⟩

/-- What every pull has taken, as long as the run goes on. -/
theorem spends_pull (follows : s.Follows source)
    (going : ∀ j < k, ∃ v, (⟨table, s, false⟩ : Run).pull j = some (.ok v)) :
    table.Spends source ((⟨table, s, false⟩ : Run).after k).stream
      ((⟨table, s, false⟩ : Run).taken k) ((⟨table, s, false⟩ : Run).pull k) := by
  induction k generalizing s with
  | zero =>
    obtain ⟨n, result, outcome⟩ := exists_outcome table s
    obtain ⟨given, taken⟩ := next?_of_outcome outcome
    have spends := spends_of_outcome follows outcome
    rw [← given, ← taken] at spends
    exact spends
  | succ k ih =>
    obtain ⟨v, first⟩ := going 0 (Nat.succ_pos k)
    obtain ⟨n, outcome⟩ := exists_outcome_of_value first
    have next := next?_of_value outcome
    have others := ih (follows_of_value follows outcome) fun j less =>
      next ▸ going (j + 1) (Nat.succ_lt_succ less)
    rw [← next] at others
    exact others

end Run

end

end Polish
