import Polish.Proofs.Laziness

/-! # What does not depend on the rest of a source

As long as two sources are the same, their runs give the same, whatever comes behind.

* `more` puts further reads behind what a stream has still to read.
* `next_fork` and `after_fork`: two streams that are the same but for these reads give the same items,
  as long as none of these reads is made.
* `outcome_fork` says it for a value or a syntax error, and `Run.pull_fork` for the pulls of a run.
* `runs_are_lazy_and_causal` puts this together with what every pull takes.
-/

namespace Polish

namespace TokenStream

variable {t s₀ : TokenStream} {later others : List Read} {n : Nat}

/-- The stream with further reads behind those that it has still to make. -/
def more (s : TokenStream) (later : List Read) : TokenStream :=
  { s with unread := s.unread ++ later }

theorem unread_more (s : TokenStream) (later : List Read) :
    (s.more later).unread = s.unread ++ later := rfl

theorem more_nil (s : TokenStream) : s.more [] = s := by
  rw [more, List.append_nil]

theorem onLine?_more (s : TokenStream) (later : List Read) :
    (s.more later).onLine? = s.onLine?.map fun result => (result.1, result.2.more later) := by
  obtain ⟨layout, unread, consumed, text, line, offset, owesEnd, finished, lookahead⟩ := s
  simp only [onLine?, more]
  cases Lexeme.findAt? text offset with
  | some found => rfl
  | none => cases owesEnd <;> rfl

/-- A read that is made before the further ones are reached is one of the stream itself. -/
theorem exists_unread_of_append {reads unread : List Read} {read : Read}
    (made : reads ++ later = read :: unread) (enough : later.length ≤ unread.length) :
    ∃ own, reads = read :: own ∧ unread = own ++ later := by
  cases reads with
  | nil =>
    have length := congrArg List.length made
    rw [List.nil_append, List.length_cons] at length
    omega
  | cons first own =>
    obtain ⟨rfl, rfl⟩ := List.cons.inj made
    exact ⟨own, rfl, rfl⟩

theorem Skips.fork (skips : Skips (t.more later) s₀) (enough : later.length ≤ s₀.unread.length)
    (others : List Read) :
    ∃ t₀ : TokenStream, s₀ = t₀.more later ∧ Skips (t.more others) (t₀.more others) := by
  generalize same : t.more later = s at skips
  induction skips generalizing t with
  | none => exact ⟨t, same.symm, .none _⟩
  | @line s s' read unread text nothing reads line skips ih =>
    subst same
    have fewer := (unread_of_skips skips).1.length_le
    obtain ⟨own, mine, rfl⟩ := exists_unread_of_append reads (Nat.le_trans enough fewer)
    obtain ⟨t₀, rfl, skips'⟩ :=
      ih enough (show ((t.advance read.size own).hold text).more later = _ from rfl)
    refine ⟨t₀, rfl, .line ?_ ?_ line skips'⟩
    · rw [onLine?_more, Option.map_eq_none_iff] at nothing ⊢
      exact nothing
    · rw [unread_more, mine]
      rfl

theorem Answers.fork {result : Except Failure Token × TokenStream}
    (answers : (t.more later).Answers result) (enough : later.length ≤ result.2.unread.length)
    (goesOn : ∀ token, result.1 = .ok token → token.isLast = false) (others : List Read) :
    ∃ t₁ : TokenStream, result.2 = t₁.more later ∧
      (t.more others).Answers (result.1, t₁.more others) := by
  cases answers with
  | onLine answered =>
    rw [onLine?_more] at answered
    obtain ⟨⟨item, t₁⟩, mine, rfl⟩ := Option.map_eq_some_iff.1 answered
    exact ⟨t₁, rfl, .onLine (by rw [onLine?_more, mine]; rfl)⟩
  | ended => cases goesOn _ rfl
  | @failed read unread message nothing reads failed =>
    obtain ⟨own, mine, rfl⟩ := exists_unread_of_append reads enough
    refine ⟨t.advance read.size own, rfl, .failed ?_ ?_ failed⟩
    · rw [onLine?_more, Option.map_eq_none_iff] at nothing ⊢
      exact nothing
    · rw [unread_more, mine]
      rfl

/-- An item that needs none of the further reads does not depend on them, unless it is the end of the
    input. -/
theorem next_fork (idle : (t.more later).lookahead = none)
    (enough : later.length ≤ (t.more later).next.2.unread.length)
    (goesOn : ∀ token, (t.more later).next.1 = .ok token → token.isLast = false)
    (others : List Read) :
    ∃ t₁ : TokenStream, (t.more later).next.2 = t₁.more later ∧
      (t.more others).next = ((t.more later).next.1, t₁.more others) := by
  obtain ⟨token, looked, _⟩ | ⟨_, _, taken⟩ | ⟨s₀, ready, skips, answers⟩ := (t.more later).next_cases
  · rw [idle] at looked
    cases looked
  · cases goesOn _ (congrArg Prod.fst taken)
  · have fewer := answers.keeps.2.2.2.1.length_le
    obtain ⟨t₀, rfl, skips'⟩ := skips.fork (Nat.le_trans enough fewer) others
    obtain ⟨t₁, same, answers'⟩ := answers.fork enough goesOn others
    have ready' : (t.more others).Ready := ⟨idle, ready.unfinished⟩
    refine ⟨t₁, same, ?_⟩
    rw [ready'.next_of_skips skips', (ready'.of_skips skips').next_of_answers answers']

theorem after_fork (idle : (t.more later).lookahead = none)
    (enough : later.length ≤ ((t.more later).after n).unread.length)
    (goesOn : ∀ item ∈ (t.more later).results n, ∀ token, item = .ok token → token.isLast = false)
    (others : List Read) :
    ∃ t₁ : TokenStream, (t.more later).after n = t₁.more later ∧
      (t.more others).results n = (t.more later).results n ∧ (t.more others).after n = t₁.more others := by
  induction n generalizing t with
  | zero => exact ⟨t, rfl, rfl, rfl⟩
  | succ n ih =>
    rw [TokenStream.after] at enough
    have fewer := ((t.more later).next.2.unread_after n).1.length_le
    obtain ⟨t₁, same, first⟩ := next_fork idle (Nat.le_trans enough fewer)
      (goesOn _ List.mem_cons_self) others
    have idle₁ : (t₁.more later).lookahead = none := same ▸ lookahead_next (t.more later)
    have behind : ∀ item ∈ (t₁.more later).results n, ∀ token, item = .ok token →
        token.isLast = false := fun item member => goesOn item (by
      rw [TokenStream.results, same]
      exact List.mem_cons_of_mem _ member)
    obtain ⟨t₂, after, results, after'⟩ := ih idle₁ (same ▸ enough) behind
    refine ⟨t₂, ?_, ?_, ?_⟩
    · rw [TokenStream.after, same, after]
    · rw [TokenStream.results, first, results, TokenStream.results, same]
    · rw [TokenStream.after, first, after']

/-! ## The reads that were made -/

variable {source : Source} {s : TokenStream} {lead : List Read}

theorem Counts.getLast?_text (counts : s.Counts source) (counted : 0 < s.line)
    (split : source.reads = lead ++ later) (enough : later.length ≤ s.unread.length)
    (closed : ∀ read ∈ lead, ∀ text, read.text? = some text → text.getLast? = some '\n') :
    s.text.getLast? = some '\n' := by
  obtain ⟨before, read, reads, line⟩ := counts.exists_last counted
  have length := congrArg List.length (split.symm.trans reads)
  simp only [List.length_append, List.length_cons] at length
  have first : before ++ [read] <+: lead := by
    refine List.prefix_of_prefix_length_le ?_ (split ▸ List.prefix_append lead later) ?_
    · exact ⟨s.unread, by rw [reads, List.append_assoc, List.singleton_append]⟩
    · simp only [List.length_append, List.length_singleton]
      omega
  exact closed read (first.mem (List.mem_concat_self)) _ line

/-- Every read of a text takes some bytes, so that where no more was taken than the first reads have,
    none of the further reads was made. -/
theorem Counts.le_length_unread (counts : s.Counts source) (split : source.reads = lead ++ later)
    (few : s.consumed ≤ bytesIn lead) : later.length ≤ s.unread.length := by
  obtain ⟨made, all, texts, _, bytes, _⟩ := counts.reads
  obtain ⟨beyond, rfl, same⟩ | ⟨own, _, same⟩ := List.append_eq_append_iff.1 (split.symm.trans all)
  · cases beyond with
    | nil => rw [same, List.nil_append]
    | cons read beyond =>
      have size : 0 < read.size :=
        Source.size_pos_of_text? (all ▸ by simp : read ∈ source.reads) (texts read (by simp))
      rw [← bytes, bytesIn_append, bytesIn] at few
      omega
  · rw [same, List.length_append]
    exact Nat.le_add_left _ _

end TokenStream

/-! ## One value -/

open TokenStream OperatorTable

variable {source : Source} {table : OperatorTable} {s t : TokenStream} {lead later : List Read} {n : Nat}

/-- A value, or a syntax error that is not about the end of the input. -/
def Settled (result : Except Failure Float) : Prop :=
  (∃ v, result = .ok v) ∨ ∃ d, result = .error (.malformed d) ∧ ¬ d.cause.AtInputEnd

theorem counts_of_outcome (follows : s.Follows source) {result : Except Failure (Option Float)}
    (outcome : table.Outcome s n result) {given : Except Failure Float}
    (same : pulled result = some given) (settled : Settled given) : (s.after n).Counts source := by
  cases outcome with
  | ended => cases same
  | value reads layout => exact (follows_of_value follows (.value reads layout)).toCounts
  | line reads layout item kind =>
    exact (follows_of_value follows (.line reads layout item kind)).toCounts
  | failure item nodes =>
    have met := (follows.after (nodes_of_failure nodes)).1.next
    rw [item, ← after_succ] at met
    cases same
    obtain ⟨v, ok⟩ | ⟨d, malformed, _⟩ := settled
    · cases ok
    · cases malformed
      exact met.1
  | refused item refuses =>
    have gave := (follows.after refuses.nodes).1.gave item
    rw [← after_succ] at gave
    exact gave.follows.toCounts

theorem goesOn_of_nodes (nodes : ∀ item ∈ s.results n, (table.node? item).isSome) :
    ∀ item ∈ s.results n, ∀ token, item = .ok token → token.isLast = false := by
  rintro _ member token rfl
  exact isLast_of_node? (nodes _ member)

theorem goesOn_succ (before : ∀ item ∈ s.results n, ∀ token, item = .ok token → token.isLast = false)
    (last : ∀ token, (s.after n).next.1 = .ok token → token.isLast = false) :
    ∀ item ∈ s.results (n + 1), ∀ token, item = .ok token → token.isLast = false := by
  rw [results_succ]
  rintro item member token rfl
  obtain earlier | same := List.mem_append.1 member
  · exact before _ earlier token rfl
  · exact last token (List.mem_singleton.1 same).symm

/-- What a settled result is known by are tokens of the lines, and never the end of the input. -/
theorem goesOn_of_outcome (follows : s.Follows source) (split : source.reads = lead ++ later)
    (closed : ∀ read ∈ lead, ∀ text, read.text? = some text → text.getLast? = some '\n')
    {result : Except Failure (Option Float)} (outcome : table.Outcome s n result)
    {given : Except Failure Float} (same : pulled result = some given) (settled : Settled given)
    (enough : later.length ≤ (s.after n).unread.length) :
    ∀ item ∈ s.results n, ∀ token, item = .ok token → token.isLast = false := by
  cases outcome with
  | ended => cases same
  | value reads layout => exact goesOn_of_nodes (nodes_of_reads reads)
  | @line tree token reached reads layout item kind =>
    refine goesOn_succ (goesOn_of_nodes (nodes_of_reads reads)) ?_
    -- the line is one of the first ones, and so it has an end that closes it
    obtain ⟨here, held⟩ := follows.after (nodes_of_reads reads)
    have held := held tree.length_preorder_ne_zero
    rw [after_succ] at enough
    have fewer := (s.after tree.preorder.length).unread_next.1.length_le
    have feed := here.getLast?_text held.counted split (Nat.le_trans enough fewer) closed
    obtain ⟨answer, answered⟩ := Option.ne_none_iff_exists'.1
      (held.onLine?_ne_none ((layout_after s _).trans layout) feed)
    have ready : (s.after tree.preorder.length).Ready := ⟨here.idle, held.unfinished⟩
    rw [ready.next_of_onLine? answered]
    exact fun other => isLast_of_answered answered
  | failure item nodes =>
    refine goesOn_succ (goesOn_of_nodes (nodes_of_failure nodes)) fun token same => ?_
    rw [item] at same
    cases same
  | @refused n token cause item refuses =>
    refine goesOn_succ (goesOn_of_nodes refuses.nodes) fun other same' => ?_
    obtain rfl : token = other := Except.ok.inj (item.symm.trans same')
    cases same
    obtain ⟨v, ok⟩ | ⟨d, malformed, early⟩ := settled
    · cases ok
    · cases malformed
      exact Bool.eq_false_iff.2 fun last => early (refuses.isLast_iff.1 last)

theorem outcome_fork (follows : (t.more later).Follows source) (split : source.reads = lead ++ later)
    (closed : ∀ read ∈ lead, ∀ text, read.text? = some text → text.getLast? = some '\n')
    {result : Except Failure (Option Float)} (outcome : table.Outcome (t.more later) n result)
    {given : Except Failure Float} (same : pulled result = some given) (settled : Settled given)
    (enough : later.length ≤ ((t.more later).after n).unread.length) (others : List Read) :
    ∃ t₁ : TokenStream, (t.more later).after n = t₁.more later ∧
      (t.more others).after n = t₁.more others ∧ table.Outcome (t.more others) n result := by
  obtain ⟨t₁, after, results, after'⟩ := after_fork follows.idle enough
    (goesOn_of_outcome follows split closed outcome same settled enough) others
  exact ⟨t₁, after, after', outcome.transfer rfl results (by rw [after, after']; rfl)⟩

/-! ## The pulls of a run -/

namespace Run

variable {k : Nat}

theorem consumed_le_next? (run : Run) : run.stream.consumed ≤ run.next?.2.stream.consumed := by
  obtain ⟨table, s, finished⟩ := run
  cases finished with
  | true => exact Nat.le_refl _
  | false =>
    obtain ⟨n, _, outcome⟩ := exists_outcome table s
    rw [(next?_of_outcome outcome).2]
    exact (s.unread_after n).2

theorem consumed_le_taken (run : Run) (k : Nat) : run.stream.consumed ≤ run.taken k := by
  induction k generalizing run with
  | zero => exact run.consumed_le_next?
  | succ k ih => exact Nat.le_trans run.consumed_le_next? (ih run.next?.2)

theorem pull_fork (follows : (t.more later).Follows source) (split : source.reads = lead ++ later)
    (closed : ∀ read ∈ lead, ∀ text, read.text? = some text → text.getLast? = some '\n')
    {result : Except Failure Float} (settled : Settled result)
    (given : (⟨table, t.more later, false⟩ : Run).pull k = some result)
    (few : (⟨table, t.more later, false⟩ : Run).taken k ≤ bytesIn lead) (others : List Read) :
    (⟨table, t.more others, false⟩ : Run).pull k = some result ∧
      (⟨table, t.more others, false⟩ : Run).taken k = (⟨table, t.more later, false⟩ : Run).taken k := by
  induction k generalizing t with
  | zero =>
    obtain ⟨n, _, outcome⟩ := exists_outcome table (t.more later)
    obtain ⟨first, taken⟩ := next?_of_outcome outcome
    have same := first.symm.trans given
    have counts := counts_of_outcome follows outcome same settled
    have enough := counts.le_length_unread split (taken ▸ few)
    obtain ⟨t₁, after, after', outcome'⟩ :=
      outcome_fork follows split closed outcome same settled enough others
    obtain ⟨first', taken'⟩ := next?_of_outcome outcome'
    have equal : ((t.more others).after n).consumed = ((t.more later).after n).consumed := by
      rw [after, after']
      rfl
    exact ⟨first'.trans same, taken'.trans (equal.trans taken.symm)⟩
  | succ k ih =>
    -- what is given later comes behind a value, and that value takes no more
    obtain ⟨v, first⟩ : ∃ v, (⟨table, t.more later, false⟩ : Run).pull 0 = some (.ok v) := by
      by_contra stopped
      have none := (pull_of_stopped (fun v same => stopped ⟨v, same⟩) (Nat.succ_pos k)).1
      rw [given] at none
      cases none
    obtain ⟨n, outcome⟩ := exists_outcome_of_value first
    have follows₁ := follows_of_value follows outcome
    have next := next?_of_value outcome
    have given : (⟨table, (t.more later).after n, false⟩ : Run).pull k = some result := next ▸ given
    have few : (⟨table, (t.more later).after n, false⟩ : Run).taken k ≤ bytesIn lead := next ▸ few
    have enough := follows₁.le_length_unread split
      (Nat.le_trans (consumed_le_taken ⟨table, (t.more later).after n, false⟩ k) few)
    obtain ⟨t₁, after, after', outcome'⟩ :=
      outcome_fork follows split closed outcome rfl (.inl ⟨v, rfl⟩) enough others
    rw [after] at follows₁ given few next
    have behind := ih follows₁ given few
    have next' := next?_of_value outcome'
    rw [after'] at next'
    rw [← next, ← next'] at behind
    exact behind

end Run

/-- What the pulls of a run take from the source, and what they do not depend on.
    * As long as the run goes on, a pull takes whole lines, and no more than it needs: up to the line
      of the last token of an expression, up to the line of a syntax error, up to the bytes that a
      failed read has lost, or all bytes where the input is at its end.
    * After a failure or the end nothing more is given, and nothing more is taken.
    * If a value, or a syntax error that is not about the end of the input, has not taken more than the
      lead of the source, which a line feed ends, then it is given at the same place, and takes the
      same, whatever comes behind the lead. -/
theorem runs_are_lazy_and_causal (table : OperatorTable) (layout : Layout) (source : Source) :
    let run := Run.ofSource table layout source
    (∀ k, (∀ j < k, ∃ v, run.pull j = some (.ok v)) →
        table.Spends source (run.after k).stream (run.taken k) (run.pull k)) ∧
      (∀ j k, (∀ v, run.pull j ≠ some (.ok v)) → j < k →
        run.pull k = none ∧ run.taken k = run.taken j) ∧
      ∀ (other : Source) lead rest rest', source.signals = lead ++ rest →
        other.signals = lead ++ rest' → (∀ last ∈ lead.getLast?, last = .byte Source.lineFeed) →
        ∀ k result, run.pull k = some result → Settled result →
          run.taken k ≤ (Source.bytesOf lead).length →
          (Run.ofSource table layout other).pull k = some result ∧
            (Run.ofSource table layout other).taken k = run.taken k := by
  intro run
  refine ⟨fun k going => Run.spends_pull (follows_ofSource layout source) going,
    fun j k notValue later => Run.pull_of_stopped notValue later, ?_⟩
  intro other lead rest rest' signals signals' ends k result given settled few
  have closed : ∀ last ∈ lead.getLast?, last.stops = true := fun last member => by
    rw [ends last member]
    rfl
  have reads : source.reads = Source.readsFrom [] lead ++ Source.readsFrom [] rest := by
    rw [Source.reads, signals, Source.reads_append closed]
  have reads' : other.reads = Source.readsFrom [] lead ++ Source.readsFrom [] rest' := by
    rw [Source.reads, signals', Source.reads_append closed]
  -- the two streams differ in the reads behind the lead only
  let t : TokenStream := { layout := layout, unread := Source.readsFrom [] lead }
  have first : ofSource layout source = t.more (Source.readsFrom [] rest) := by
    rw [ofSource, reads]
    rfl
  have second : ofSource layout other = t.more (Source.readsFrom [] rest') := by
    rw [ofSource, reads']
    rfl
  have follows := follows_ofSource layout source
  have run_eq : run = ⟨table, t.more (Source.readsFrom [] rest), false⟩ := by
    rw [← first]
    rfl
  have other_eq : Run.ofSource table layout other = ⟨table, t.more (Source.readsFrom [] rest'), false⟩ := by
    rw [← second]
    rfl
  rw [first] at follows
  rw [run_eq] at given few ⊢
  rw [other_eq]
  refine Run.pull_fork follows reads (fun read member text line => ?_) settled given ?_ _
  · exact Source.getLast?_of_closed closed member line
  · rwa [Source.bytesIn_readsFrom]

/-- A line that is complete gives its value, whether a further line or a failure comes behind it. -/
theorem runs_agree_on_first_line :
    ∃ v, (Run.ofSource basicTable .linewise (.ofString "7\n+")).pull 0 = some (.ok v) ∧
      (Run.ofSource basicTable .linewise (.ofString "7\n+")).taken 0 = 2 ∧
      (Run.ofSource basicTable .linewise [.data [55, 10], .failure "reset"]).pull 0 = some (.ok v) ∧
      (Run.ofSource basicTable .linewise [.data [55, 10], .failure "reset"]).taken 0 = 2 := by
  let start : TokenStream := .ofSource .linewise (.ofString "7\n+")
  obtain ⟨v, numeral⟩ : ∃ v, basicTable.node? start.next.1 = some (.number v) := ⟨_, rfl⟩
  have reads : basicTable.Reads start (Expression.number v).preorder := by
    rw [Expression.preorder]
    exact reads_cons.2 ⟨numeral, rfl⟩
  obtain ⟨token, item, kind⟩ : ∃ token, (start.after 1).next.1 = .ok token ∧
      token.kind = .ending .endOfLine := ⟨_, rfl, rfl⟩
  have outcome : basicTable.Outcome start 2 (.ok (some v)) := .line reads rfl item kind
  obtain ⟨given, taken⟩ := Run.next?_of_outcome outcome
  have two : (start.after 2).consumed = 2 := by decide +kernel
  have taken : (Run.ofSource basicTable .linewise (.ofString "7\n+")).taken 0 = 2 := taken.trans two
  obtain ⟨_, _, causal⟩ := runs_are_lazy_and_causal basicTable .linewise (.ofString "7\n+")
  obtain ⟨given', taken'⟩ := causal [.data [55, 10], .failure "reset"] [.byte 55, .byte 10] [.byte 43]
    [.failure "reset"] (by decide) (by decide) (by decide) 0 (.ok v) given (.inl ⟨v, rfl⟩)
    (taken ▸ by decide)
  exact ⟨v, given, taken, given', taken'.trans taken⟩

end Polish
