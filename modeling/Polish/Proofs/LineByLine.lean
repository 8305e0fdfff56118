import Polish.Proofs.LineForms
import Polish.Proofs.Scanning
import Polish.Proofs.Values

/-! # Runs line by line

Where every line is to be one expression, a run goes along the lines: each line gives the value of its
expression, or a failure that ends the run, or it is blank and the last one.

* `Lays`: the next items of a stream are those of one line.
* `Lays.nextValue_of_spells`, `Lays.nextValue_of_fault` and `Lays.atEnd_of_vacant`: what each form of a
  line gives.
* `exists_values_of_awaits` goes from line to line, and `values_line_by_line` says it for a whole source.
-/

namespace Polish

namespace TokenStream

variable {s s' : TokenStream} {items others : List (Except Failure Token)} {n : Nat} {line : List Char}
  {later : List (List Char)}

theorem Gives.split (gives : s.Gives (items ++ others) s') :
    s.results items.length = items ∧ (s.after items.length).Gives others s' := by
  obtain ⟨results, after⟩ := gives
  rw [List.length_append, results_add] at results
  rw [List.length_append, after_add] at after
  obtain ⟨first, second⟩ := List.append_inj results (length_results s _)
  exact ⟨first, second, after⟩

theorem Gives.next_eq {item : Except Failure Token} (gives : s.Gives (item :: items) s') :
    s.next = (item, s.after 1) :=
  Prod.ext (List.cons.inj gives.1).1 rfl

theorem gives_congr (same : s.next = s'.next) {s₁ : TokenStream} (some : items ≠ [])
    (gives : s'.Gives items s₁) : s.Gives items s₁ := by
  obtain ⟨item, items, rfl⟩ := List.exists_cons_of_ne_nil some
  obtain ⟨results, after⟩ := gives
  exact ⟨(results_congr same _).trans results, by rw [← after, List.length_cons, TokenStream.after, same,
    TokenStream.after]⟩

/-- The next items of the stream are those of the line with the number `n`, the last of them what comes
    behind its pieces, and the stream goes on as `s'`. -/
structure Lays (s : TokenStream) (n : Nat) (line : List Char) (s' : TokenStream) : Prop where
  layout : s.layout = .linewise
  gives : s.Gives ((pieces line).map (Piece.item line n) ++
    [.ok (endingOf (terminatorOf line) line n)]) s'
  text : ∀ k ≤ (pieces line).length, (s.after (k + 1)).text = line

/-- The line held is used up, its number is `n`, and the source holds further `lines`; or the input is
    at its end. -/
inductive Awaits : TokenStream → Nat → List (List Char) → Prop where
  | lines {s : TokenStream} {lines : List (List Char)} (ready : s.Ready) (layout : s.layout = .linewise)
      (nothing : s.onLine? = none) (unread : s.unread = lines.map readOf) : Awaits s s.line lines
  | ended {s : TokenStream} {n : Nat} (atEnd : s.AtEnd) : Awaits s n []

theorem Awaits.atEnd (awaits : s.Awaits n []) : s.AtEnd := by
  cases awaits with
  | ended atEnd => exact atEnd
  | lines ready _ nothing unread => exact ⟨_, by rw [ready.next_at_end nothing unread], rfl⟩

/-- The same where reads are still to be made, and some of them may fail. -/
inductive Stands : TokenStream → Nat → List Read → Prop where
  | reads {s : TokenStream} {reads : List Read} (ready : s.Ready) (layout : s.layout = .linewise)
      (nothing : s.onLine? = none) (unread : s.unread = reads) : Stands s s.line reads
  | ended {s : TokenStream} {n : Nat} (atEnd : s.AtEnd) : Stands s n []

theorem Awaits.stands {lines : List (List Char)} (awaits : s.Awaits n lines) :
    s.Stands n (lines.map readOf) := by
  cases awaits with
  | lines ready layout nothing unread => exact .reads ready layout nothing unread
  | ended atEnd => exact .ended atEnd

theorem Stands.awaits {lines : List (List Char)} (stands : s.Stands n (lines.map readOf)) :
    s.Awaits n lines := by
  generalize same : lines.map readOf = reads at stands
  cases stands with
  | reads ready layout nothing unread => exact .lines ready layout nothing (unread.trans same.symm)
  | ended atEnd =>
    obtain rfl := List.map_eq_nil_iff.1 same
    exact .ended atEnd

/-- What a line gives that is held and of which nothing is used up, with what comes behind it. -/
theorem Ready.exists_stands (ready : s.Ready) (layout : s.layout = .linewise) (start : s.offset = 0)
    (counted : 0 < s.line) (owes : s.owesEnd = (s.layout = .linewise && s.text.getLast? = some '\n'))
    (closed : s.unread ≠ [] → terminatorOf s.text = .endOfLine) :
    ∃ s', s.Gives ((pieces s.text).map (Piece.item s.text s.line) ++
        [.ok (endingOf (terminatorOf s.text) s.text s.line)]) s' ∧
      s'.unread = s.unread ∧ s'.Stands s.line s.unread := by
  obtain ⟨s₁, gives, ready₁, nothing, unread₁, text, number, layout₁⟩ :=
    gives_line ready start counted owes
  rw [itemsOfLine] at gives
  by_cases feed : s.text.getLast? = some '\n'
  · rw [if_pos ⟨layout, feed⟩] at gives
    rw [terminatorOf, if_pos feed]
    exact ⟨s₁, gives, unread₁, number ▸ .reads ready₁ (layout₁.trans layout) nothing unread₁⟩
  -- a line without a line feed is the last one, and the end of the input comes behind its pieces
  · have open_ : terminatorOf s.text = .endOfInput := if_neg feed
    have used : s.unread = [] := by
      by_contra more
      rw [closed more] at open_
      cases open_
    rw [if_neg (fun both => feed both.2), List.append_nil] at gives
    have last := ready₁.next_at_end nothing (unread₁.trans used)
    have ending : s₁.ending .endOfInput = endingOf .endOfInput s.text s.line := by
      rw [TokenStream.ending, endingOf, text, number, Nat.max_eq_left counted]
    rw [open_]
    have again : ({ s₁ with finished := true } : TokenStream).next = _ :=
      next_of_finished ready₁.idle rfl
    exact ⟨{ s₁ with finished := true }, gives.append (gives_cons (ending ▸ last) gives_nil), unread₁,
      used ▸ .ended ⟨_, congrArg Prod.fst again, rfl⟩⟩

theorem Stands.exists_lays {size : Nat} {reads : List Read}
    (stands : s.Stands n (⟨size, .ok line⟩ :: reads))
    (closed : reads ≠ [] → terminatorOf line = .endOfLine) :
    ∃ s', s.Lays (n + 1) line s' ∧ s'.Stands (n + 1) reads := by
  cases stands with
  | reads ready layout nothing unread =>
    -- where the line held is used up, to look for an item is to look for it on the next line
    have first := ready.next_of_read nothing unread
    obtain ⟨s', gives, same, stands⟩ := Ready.exists_stands (s := (s.advance size reads).hold line)
      ⟨ready.idle, ready.unfinished⟩ layout rfl (Nat.succ_pos _) rfl closed
    refine ⟨s', ⟨layout, gives_congr first (by simp) gives, fun k le => ?_⟩, stands⟩
    rw [← gives.2] at same
    rw [TokenStream.after, first, ← TokenStream.after]
    refine text_after same ?_
    rw [List.length_append, List.length_map]
    exact Nat.succ_le_succ le

theorem Awaits.exists_lays (awaits : s.Awaits n (line :: later))
    (closed : later ≠ [] → terminatorOf line = .endOfLine) :
    ∃ s', s.Lays (n + 1) line s' ∧ s'.Awaits (n + 1) later := by
  obtain ⟨s', lays, stands⟩ := awaits.stands.exists_lays fun more =>
    closed (mt List.map_eq_nil_iff.2 more)
  exact ⟨s', lays, stands.awaits⟩

end TokenStream

open TokenStream

namespace TokenStream.Lays

variable {table : OperatorTable} {s s' : TokenStream} {n : Nat} {line : List Char}
  {first later : List Piece} {p : Piece}

theorem next_ending (lays : s.Lays n line s') :
    (s.after (pieces line).length).next = (.ok (endingOf (terminatorOf line) line n), s') := by
  have split := lays.gives.split.2
  rw [List.length_map] at split
  rw [split.next_eq, ← split.2]
  rfl

theorem results_eq (lays : s.Lays n line s') (split : pieces line = first ++ later) :
    s.results first.length = first.map (Piece.item line n) := by
  have gives := lays.gives
  rw [split, List.map_append, List.append_assoc] at gives
  simpa using gives.split.1

theorem next_piece (lays : s.Lays n line s') (split : pieces line = first ++ p :: later) :
    (s.after first.length).next = (p.item line n, s.after (first.length + 1)) := by
  have gives := lays.gives
  rw [split, List.map_append, List.append_assoc, List.map_cons, List.cons_append] at gives
  have next := gives.split.2.next_eq
  rwa [List.length_map, ← after_add] at next

theorem diagnose_eq (lays : s.Lays n line s') (split : pieces line = first ++ later) (cause : Cause)
    (place : Place) :
    (s.after (first.length + 1)).diagnose cause place =
      .located cause place (String.ofList line) := by
  rw [diagnose, lays.text _ (by simp [split])]

theorem reads (lays : s.Lays n line s') (split : pieces line = first ++ later) {nodes : List Head}
    (same : first.map table.nodeOf? = nodes.map some) :
    table.Reads s nodes ∧ first.length = nodes.length := by
  have length : first.length = nodes.length := by simpa using congrArg List.length same
  refine ⟨?_, length⟩
  rw [OperatorTable.Reads, ← length, lays.results_eq split, List.map_map, ← same]
  exact List.map_congr_left fun p _ => table.node?_item line n p

theorem failsAt (lays : s.Lays n line s') (split : pieces line = first ++ later) {nodes : List Head}
    (opens : table.Opens first nodes) (obstacle : table.node? (s.after first.length).next.1 = none) :
    table.FailsAt s first.length := by
  obtain ⟨reads, length⟩ := lays.reads split opens.nodes_eq
  rw [length] at obstacle ⊢
  refine ⟨OperatorTable.nodes_of_reads reads, obstacle, fun k le => ?_⟩
  rw [OperatorTable.counter_of_reads reads le]
  exact opens.waits k le

/-! ## What each form of a line gives -/

theorem atEnd_of_vacant (lays : s.Lays n line s') (vacant : Vacant line) : s.AtEnd := by
  have first := lays.next_ending
  rw [pieces_eq_nil_iff.2 vacant.1, vacant.2] at first
  exact ⟨_, congrArg Prod.fst first, rfl⟩

theorem vacant_of_atEnd (lays : s.Lays n line s') (atEnd : s.AtEnd) : Vacant line := by
  obtain ⟨token, item, last⟩ := atEnd
  cases split : pieces line with
  | nil =>
    have first := lays.next_ending
    rw [split, List.length_nil, after_zero] at first
    rw [first] at item
    cases item
    have kind := Token.isLast_iff.1 last
    exact ⟨pieces_eq_nil_iff.1 split, Token.Kind.ending.inj kind⟩
  | cons p later =>
    have first : s.next = (p.item line n, s.after 1) :=
      lays.next_piece (split.trans (List.nil_append _).symm)
    rw [first] at item
    obtain ⟨start, chars | c⟩ := p
    · cases item
      rw [Token.isLast_ofWord] at last
      contradiction
    · cases item

theorem nextValue_of_spells (lays : s.Lays n line s') {tree : Expression}
    (spells : table.Spells (pieces line) tree) :
    table.nextValue s = (.ok (some tree.value), s') := by
  obtain ⟨reads, length⟩ := lays.reads (List.append_nil _).symm spells
  have closed : (s.after tree.preorder.length).closeLine = (.ok (), s') :=
    closeLine_of_ending ((layout_after s _).trans lays.layout) (length ▸ lays.next_ending) rfl
  rw [OperatorTable.nextValue_of_reads reads, closed]

theorem expression_of_unfinished (lays : s.Lays n line s') {nodes : List Head} {op : Operator}
    {found : Nat} (opens : table.Opens (pieces line) nodes) (innermost : Innermost nodes op found) :
    ∃ s₁, table.expression s = (.error (.malformed (.located
      (.missingOperand op.symbol op.arity found (terminatorOf line))
      (endingOf (terminatorOf line) line n).place (String.ofList line))), s₁) := by
  have whole : pieces line = pieces line ++ [] := (List.append_nil _).symm
  have item := congrArg Prod.fst lays.next_ending
  obtain ⟨reads, length⟩ := lays.reads whole opens.nodes_eq
  have failed := OperatorTable.expression_of_innermost
    (lays.failsAt whole opens (by rw [item]; rfl)) item rfl (length ▸ reads) innermost
  obtain ⟨looked, peek_eq⟩ := exists_peek_eq (s.after (pieces line).length)
  rw [peek_eq, ← after_succ] at failed
  exact ⟨_, failed.trans (by rw [← lays.diagnose_eq whole]; rfl)⟩

/-- What is wrong with a line is what the run fails with. -/
theorem nextValue_of_fault (lays : s.Lays n line s') {d : Diagnostic} (fault : table.Fault n line d) :
    ∃ s₁, table.nextValue s = (.error (.malformed d), s₁) := by
  have goesOn : ¬ s.AtEnd := fun atEnd => fault.not_vacant (lays.vacant_of_atEnd atEnd)
  cases fault with
  | blank blank ends =>
    have first := lays.next_ending
    rw [pieces_eq_nil_iff.2 blank, List.length_nil, after_zero, ends] at first
    rw [← lays.diagnose_eq (List.nil_append _).symm]
    exact ⟨_, OperatorTable.nextValue_of_failure goesOn
      (OperatorTable.expression_of_ending (congrArg Prod.fst first) rfl)⟩
  | second split spells word =>
    obtain ⟨reads, length⟩ := lays.reads split spells
    have next := lays.next_piece split
    rw [Piece.item, word] at next
    have refused := closeLine_of_not_ending ((layout_after s _).trans lays.layout) next
      (Token.kind_ofWord_ne_ending _ _)
    rw [length] at refused
    rw [← lays.diagnose_eq split, OperatorTable.nextValue_of_reads reads, refused, length]
    exact ⟨_, rfl⟩
  | stray split before stray =>
    have next := lays.next_piece split
    rw [Piece.item, stray] at next
    obtain ⟨tree, spells⟩ | ⟨nodes, opens⟩ := before
    · obtain ⟨reads, length⟩ := lays.reads split spells
      rw [length] at next
      rw [OperatorTable.nextValue_of_reads reads,
        closeLine_of_error ((layout_after s _).trans lays.layout) next]
      exact ⟨_, rfl⟩
    · have fails := lays.failsAt split opens (by rw [next]; rfl)
      exact ⟨_, OperatorTable.nextValue_of_failure goesOn
        (OperatorTable.expression_of_failure_item fails (congrArg Prod.fst next))⟩
  | unknown split opens word obstacle =>
    have next := lays.next_piece split
    have fails := lays.failsAt split opens (by rw [next, table.node?_item, obstacle])
    rw [Piece.item, word] at next
    rw [← lays.diagnose_eq split]
    exact ⟨_, OperatorTable.nextValue_of_failure goesOn
      (OperatorTable.expression_of_unregistered fails (congrArg Prod.fst next)
        (OperatorTable.kind_ofWord_of_nodeOf? word obstacle _))⟩
  | unfinished opens innermost =>
    obtain ⟨s₁, failed⟩ := lays.expression_of_unfinished opens innermost
    exact ⟨s₁, OperatorTable.nextValue_of_failure goesOn failed⟩

end TokenStream.Lays

/-! ## Whole runs -/

variable {table : OperatorTable} {s : TokenStream} {n : Nat} {lines : List (List Char)}

/-- From line to line: as long as a line is one expression its value is given, and the first line that
    is none ends the run. -/
theorem exists_values_of_awaits (awaits : s.Awaits n lines)
    (closed : ∀ before line later, lines = before ++ line :: later → later ≠ [] →
      terminatorOf line = .endOfLine) :
    ∃ texts rest trees, lines = texts ++ rest ∧
      List.Forall₂ (fun line tree => table.Spells (pieces line) tree) texts trees ∧
      ((∀ line ∈ rest, Vacant line) ∧
          (⟨table, s, false⟩ : Run).values = trees.map (fun tree => .ok tree.value) ∨
        ∃ line later d, rest = line :: later ∧ ¬ Vacant line ∧
          (∀ tree, ¬ table.Spells (pieces line) tree) ∧
          table.Fault (n + texts.length + 1) line d ∧
          (∀ other, table.Fault (n + texts.length + 1) line other → other = d) ∧
          (⟨table, s, false⟩ : Run).values =
            trees.map (fun tree => .ok tree.value) ++ [.error (.malformed d)]) := by
  induction lines generalizing s n with
  | nil =>
    exact ⟨[], [], [], rfl, .nil, .inl ⟨fun _ member => (List.not_mem_nil member).elim,
      Run.values_of_end (OperatorTable.nextValue_of_atEnd awaits.atEnd)⟩⟩
  | cons line later ih =>
    obtain ⟨s', lays, awaits'⟩ := awaits.exists_lays (closed [] line later rfl)
    by_cases spelled : ∃ tree, table.Spells (pieces line) tree
    · obtain ⟨tree, spells⟩ := spelled
      obtain ⟨texts, rest, trees, split, spelled, ends⟩ := ih awaits' fun before other later same =>
        closed (line :: before) other later (by rw [same, List.cons_append])
      have number : n + 1 + texts.length = n + (line :: texts).length := by
        rw [List.length_cons]
        omega
      rw [number] at ends
      refine ⟨line :: texts, rest, tree :: trees, by rw [split, List.cons_append],
        .cons spells spelled, ?_⟩
      rw [Run.values_of_value (lays.nextValue_of_spells spells)]
      obtain ⟨vacant, values⟩ | ⟨other, later, d, same, notVacant, notSpelled, fault, only, values⟩ := ends
      · exact .inl ⟨vacant, by rw [values, List.map_cons]⟩
      · exact .inr ⟨other, later, d, same, notVacant, notSpelled, fault, only,
          by rw [values, List.map_cons, List.cons_append]⟩
    · refine ⟨[], line :: later, [], rfl, .nil, ?_⟩
      obtain spells | vacant | ⟨d, fault⟩ := table.spells_or_vacant_or_fault (n + 1) line
      · exact absurd spells spelled
      -- a line without a line feed is the last one
      · obtain rfl : later = [] := by
          by_contra more
          have ends := vacant.2
          rw [closed [] line later rfl more] at ends
          cases ends
        exact .inl ⟨fun other member => List.mem_singleton.1 member ▸ vacant,
          Run.values_of_end (OperatorTable.nextValue_of_atEnd (lays.atEnd_of_vacant vacant))⟩
      · obtain ⟨s₁, failed⟩ := lays.nextValue_of_fault fault
        refine .inr ⟨line, later, d, rfl, fault.not_vacant, fun tree spells => spelled ⟨tree, spells⟩,
          fault, fun other fault' => ?_, Run.values_of_failure failed⟩
        -- the run fails with both, and so they are the same
        obtain ⟨s₂, failed'⟩ := lays.nextValue_of_fault fault'
        rw [failed] at failed'
        cases failed'
        rfl

theorem exists_spells_of_mem {texts : List (List Char)} {trees : List Expression}
    (spelled : List.Forall₂ (fun line tree => table.Spells (pieces line) tree) texts trees)
    {line : List Char} (member : line ∈ texts) : ∃ tree, table.Spells (pieces line) tree := by
  induction spelled with
  | nil => contradiction
  | cons spells _ ih =>
    cases List.mem_cons.1 member with
    | inl first => exact ⟨_, first ▸ spells⟩
    | inr later => exact ih later

theorem Source.terminatorOf_of_linesBy {source : Source} {cs : List Char} (holds : source.Holds cs)
    {before later : List (List Char)} {line : List Char}
    (split : linesBy '\n' cs = before ++ line :: later) (more : later ≠ []) :
    terminatorOf line = .endOfLine := by
  have reads : source.reads = (linesBy '\n' cs).map readOf := Source.reads_of_text holds
  rw [split, List.map_append, List.map_cons] at reads
  exact if_pos (Source.getLast?_of_reads reads (by simpa using more) rfl)

/-- A run on a source that holds a text, where every line is to be one expression.
    * Every line but the last one ends with a line feed.  The run comes to its end without a failure
      exactly when each line is one expression, except that the last one may be blanks without a line
      feed.
    * The first lines that are expressions give their values, one for each and in order.  Then the run
      ends: with no failure if nothing is left but such blanks, and else with one that says what is
      wrong with the next line, has its number and shows it.  A line has only one such fault.
    * The end of the input is never reported as a missing expression. -/
theorem values_line_by_line (table : OperatorTable) {source : Source} {cs : List Char}
    (holds : source.Holds cs) :
    let lines := linesBy '\n' cs
    let values := (Run.ofSource table .linewise source).values
    (∀ before line later, lines = before ++ line :: later → later ≠ [] →
        terminatorOf line = .endOfLine) ∧
      ((∀ result ∈ values, ∃ v, result = .ok v) ↔
        ∀ line ∈ lines, (∃ tree, table.Spells (pieces line) tree) ∨ Vacant line) ∧
      (∃ texts rest trees, lines = texts ++ rest ∧
        List.Forall₂ (fun line tree => table.Spells (pieces line) tree) texts trees ∧
        ((∀ line ∈ rest, Vacant line) ∧ values = trees.map (fun tree => .ok tree.value) ∨
          ∃ line later d, rest = line :: later ∧ ¬ Vacant line ∧
            (∀ tree, ¬ table.Spells (pieces line) tree) ∧
            table.Fault (texts.length + 1) line d ∧
            (∀ other, table.Fault (texts.length + 1) line other → other = d) ∧
            values = trees.map (fun tree => .ok tree.value) ++ [.error (.malformed d)])) ∧
      (∀ n line d, table.Fault n line d →
        (∃ start stop, d.place = some ⟨n, start, stop⟩) ∧ d.code = some (String.ofList line) ∧
          d.cause ≠ .missingExpression .endOfInput) ∧
      Cause.message (.missingExpression .endOfLine) = "expected an expression, found end of line" ∧
      ∀ t, Cause.message (.secondExpression t) =
        "expected end of line after expression, found `" ++ t ++ "`" := by
  intro lines values
  have closed : ∀ before line later, lines = before ++ line :: later → later ≠ [] →
      terminatorOf line = .endOfLine := fun _ _ _ => Source.terminatorOf_of_linesBy holds
  have awaits : (TokenStream.ofSource .linewise source).Awaits 0 lines :=
    .lines ⟨rfl, rfl⟩ rfl rfl (Source.reads_of_text holds)
  obtain ⟨texts, rest, trees, split, spelled, ends⟩ := exists_values_of_awaits awaits closed
  rw [Nat.zero_add] at ends
  refine ⟨closed, ?_, ⟨texts, rest, trees, split, spelled, ends⟩, fun n line d fault => ?_, rfl,
    fun t => rfl⟩
  · rw [split]
    obtain ⟨vacant, all⟩ | ⟨line, later, d, rfl, notVacant, notSpelled, _, _, failed⟩ := ends
    · refine ⟨fun _ line member => ?_, fun _ result member => ?_⟩
      · exact (List.mem_append.1 member).imp (exists_spells_of_mem spelled) (vacant line)
      · have all : values = trees.map _ := all
        rw [all] at member
        obtain ⟨tree, _, rfl⟩ := List.mem_map.1 member
        exact ⟨_, rfl⟩
    · have failed : values = trees.map _ ++ [.error (.malformed d)] := failed
      refine ⟨fun good => ?_, fun good => ?_⟩
      · have last : .error (.malformed d) ∈ values := by rw [failed]; exact List.mem_concat_self
        obtain ⟨v, same⟩ := good _ last
        cases same
      · obtain ⟨tree, spells⟩ | vacant := good line (by simp)
        · exact absurd spells (notSpelled tree)
        · exact absurd vacant notVacant
  · cases fault <;> exact ⟨⟨_, _, rfl⟩, rfl, by simp [Diagnostic.located]⟩

/-- A number, and then a line of blanks that ends with a line feed. -/
theorem values_line_by_line_up_to_blank :
    (Source.ofString "7\n \n").Holds "7\n \n".toList ∧
      ∃ v d, (Run.ofSource basicTable .linewise (.ofString "7\n \n")).values =
          [.ok v, .error (.malformed d)] ∧
        d.cause = .missingExpression .endOfLine ∧ d.place = some ⟨2, 1, 1⟩ := by
  have holds := Source.holds_ofString "7\n \n"
  have cut : linesBy '\n' "7\n \n".toList = ["7\n".toList, " \n".toList] := by decide
  have seven : ∃ tree, basicTable.Spells (pieces "7\n".toList) tree := by
    obtain ⟨v, numeral⟩ := Option.isSome_iff_exists.1
      (show (Number.read? "7".toList).isSome by decide +kernel)
    have whole : pieces "7\n".toList = [⟨0, .word "7".toList⟩] := by decide +kernel
    exact ⟨.number v, by
      simp only [OperatorTable.Spells, whole, List.map_singleton, OperatorTable.nodeOf?, numeral,
        Expression.preorder]⟩
  have blank : pieces " \n".toList = [] := by decide +kernel
  obtain ⟨_, _, ⟨texts, rest, trees, split, spelled, ends⟩, _⟩ := values_line_by_line basicTable holds
  rw [cut] at split
  have notSpelled : ∀ tree, ¬ basicTable.Spells (pieces " \n".toList) tree := by
    exact fun tree spells => OperatorTable.Spells.ne_nil spells blank
  obtain ⟨vacant, _⟩ | ⟨line, later, d, rfl, _, none, _, only, values⟩ := ends
  · obtain among | behind := List.mem_append.1
      (split ▸ List.mem_cons_of_mem _ List.mem_cons_self : " \n".toList ∈ texts ++ rest)
    · obtain ⟨tree, spells⟩ := exists_spells_of_mem spelled among
      exact absurd spells (notSpelled tree)
    · exact absurd (vacant _ behind).2 (by decide)
  · cases spelled with
    | nil =>
      obtain ⟨rfl, _⟩ := List.cons.inj split
      exact absurd seven.choose_spec (none _)
    | cons spells others =>
      cases others with
      | nil =>
        obtain ⟨_, same⟩ := List.cons.inj split
        obtain ⟨rfl, _⟩ := List.cons.inj same
        obtain rfl := only _ (.blank (pieces_eq_nil_iff.1 blank) (by decide))
        exact ⟨holds, _, _, values, rfl, rfl⟩
      | cons _ _ => simp at split

end Polish
