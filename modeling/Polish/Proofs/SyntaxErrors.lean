import Polish.Proofs.Rendering
import Polish.Proofs.Tracking
import Polish.Proofs.ValueOutcome
import Polish.Report

/-! # Where syntax errors point

Every diagnostic that a run delivers points at the text that it is about.  A stream keeps track of the
line while tokens are taken from it, an evaluation takes tokens and nothing else, and a run is made of
evaluations.

* `kept_expression`, `kept_closeLine` and `kept_nextValue` go from the tokens to one value.
* `points_of_mem_values` goes along a run, and `mem_values_of_reportFrom` says that a report
  fails with nothing else.
* `syntax_errors_point_at_source` puts this together with the rows of the rendered text.
-/

namespace Polish

variable {source : Source} {table : OperatorTable} {s : TokenStream} {n : Nat}

namespace TokenStream

theorem Kept.of_ok {α : Type} {good : α → TokenStream → Prop} {taken : Except Failure α × TokenStream}
    {v : α} (kept : Kept source good taken) (same : taken.1 = .ok v) :
    taken.2.Tracks source ∧ good v taken.2 := by
  obtain ⟨_, s⟩ := taken
  cases same
  exact kept

theorem Kept.of_error {α : Type} {good : α → TokenStream → Prop}
    {taken : Except Failure α × TokenStream} {failure : Failure} (kept : Kept source good taken)
    (same : taken.1 = .error failure) : failure.Points source := by
  obtain ⟨_, s⟩ := taken
  cases same
  exact kept

theorem Places.holds {token : Token} (places : s.Places token)
    (notEnding : ∀ reached, token.kind ≠ .ending reached) :
    token.place.Holds s.text (.word token.lexeme.toList) ∧ token.place.line = s.line := by
  rw [Places] at places
  split at places
  · next reached kind => exact absurd kind (notEnding reached)
  · exact places

theorem Places.atEnd {token : Token} {reached : Terminator} (places : s.Places token)
    (kind : token.kind = .ending reached) :
    token.place.AtEnd s.text ∧ token.place.line = max s.line 1 ∧
      (reached = .endOfLine → 0 < s.line) ∧ (reached = .endOfInput → s.unread = []) := by
  rw [Places, kind] at places
  exact places

theorem Tracks.line_pos_of_holds (tracks : s.Tracks source) {place : Place} {l : Lexeme}
    (holds : place.Holds s.text l) : 0 < s.line := by
  obtain ⟨⟨before, after, text, _, fits⟩, _⟩ := holds
  obtain ⟨c, chars, first, _⟩ := fits.exists_cons
  exact tracks.line_pos (by simp [text, Piece.chars, first])

theorem Tracks.after (tracks : s.Tracks source)
    (tokens : ∀ item ∈ s.results n, ∃ token, item = .ok token) : (s.after n).Tracks source := by
  -- a step that gives a token keeps track, and no other step is taken
  induction n with
  | zero => exact tracks
  | succ n ih =>
    rw [results_succ] at tokens
    have here := ih fun item member => tokens item (List.mem_append_left _ member)
    obtain ⟨token, item⟩ := tokens _ (List.mem_append_right _ List.mem_cons_self)
    rw [after_succ]
    exact (here.next.of_ok item).1

end TokenStream

open TokenStream

/-! ## One expression -/

theorem tokens_of_nodes (nodes : ∀ item ∈ s.results n, (table.node? item).isSome) :
    ∀ item ∈ s.results n, ∃ token, item = .ok token :=
  fun item member => exists_token_of_node? (nodes item member)

theorem exists_placed_of_nodes (tracks : s.Tracks source)
    (nodes : ∀ item ∈ s.results n, (table.node? item).isSome) {k : Nat} (less : k < n) :
    ∃ token, (s.after k).next.1 = .ok token ∧ (s.after (k + 1)).Tracks source ∧
      token.place.Holds (s.after (k + 1)).text (.word token.lexeme.toList) := by
  have node := nodes _ (next_mem_results less)
  obtain ⟨token, item⟩ := exists_token_of_node? node
  have here : (s.after k).Tracks source := tracks.after fun item member =>
    tokens_of_nodes nodes item (mem_results_of_le (Nat.le_of_lt less) member)
  obtain ⟨behind, places⟩ := here.next.of_ok item
  refine ⟨token, item, after_succ s k ▸ behind, after_succ s k ▸ (places.holds ?_).1⟩
  intro reached kind
  simp [item, OperatorTable.node?, OperatorTable.head?, kind] at node

theorem isVisible_symbol (tracks : s.Tracks source)
    (all : ∀ item ∈ s.results n, (table.node? item).isSome) {nodes : List Head}
    (reads : (s.results n).map table.node? = nodes.map some) {op : Operator}
    (member : .operator op ∈ nodes) : ∀ c ∈ op.symbol.toList, Text.isVisible c = true := by
  have inside : some (.operator op) ∈ (s.results n).map table.node? :=
    reads ▸ List.mem_map_of_mem member
  obtain ⟨item, among, node⟩ := List.mem_map.1 inside
  obtain ⟨k, less, rfl⟩ := exists_of_mem_results among
  -- the word that names the operator was found as a piece of some line
  obtain ⟨token, taken, _, lexeme, _⟩ := OperatorTable.next_of_node?_operator node
  obtain ⟨other, item, _, ⟨_, _, _, _, fits⟩, _⟩ := exists_placed_of_nodes tracks all less
  rw [taken] at item
  cases item
  rw [← lexeme]
  exact fits.2.1

theorem kept_of_ending_behind (tracks : s.Tracks source) (fails : table.FailsAt s n) {token : Token}
    {reached : Terminator} (item : (s.after n).next.1 = .ok token)
    (kind : token.kind = .ending reached) (behind : n ≠ 0) :
    Kept source (fun _ _ => True) (table.expression s) := by
  obtain ⟨nodes, op, found, reads, innermost, failed⟩ :=
    OperatorTable.expression_of_ending_behind fails item kind behind
  obtain ⟨s₁, looked, _⟩ := peek_of_next_ok (next_after item)
  have kept := (tracks.after (tokens_of_nodes fails.nodes)).peek
  rw [looked] at kept
  obtain ⟨tracks₁, places⟩ := kept
  obtain ⟨atEnd, number, read, all⟩ := places.atEnd kind
  have counted : 0 < s₁.line := by
    cases reached with
    | endOfLine => exact read rfl
    | endOfInput =>
      -- the word in front of the ending stands on a line, and so the source has one
      obtain ⟨k, rfl⟩ := Nat.exists_eq_succ_of_ne_zero behind
      obtain ⟨_, _, tracks', holds⟩ :=
        exists_placed_of_nodes tracks fails.nodes (Nat.lt_succ_self k)
      have earlier := tracks'.length_reads
      have later := tracks₁.length_reads
      have some := tracks'.line_pos_of_holds holds
      rw [all rfl, List.length_nil] at later
      omega
  have line : token.place.line = s₁.line := by rw [number, Nat.max_eq_left counted]
  rw [failed, looked]
  exact tracks₁.points counted line ⟨atEnd, fun last => line ▸ tracks₁.line_eq_length (all last),
    isVisible_symbol tracks fails.nodes reads innermost.mem⟩

/-- An evaluation that does not start at the end of the input keeps track, and points at the source
    when it fails. -/
theorem kept_expression (table : OperatorTable) (tracks : s.Tracks source)
    (notLast : ∀ token, s.next.1 = .ok token → token.isLast = false) :
    Kept source (fun _ _ => True) (table.expression s) := by
  obtain ⟨n, completes⟩ | ⟨n, fails⟩ := OperatorTable.completes_or_fails table s
  · obtain ⟨tree, _, _, value⟩ := OperatorTable.expression_of_completesAt completes
    rw [value]
    exact ⟨tracks.after (tokens_of_nodes completes.nodes), trivial⟩
  -- up to the obstacle all items are tokens; what it is says what the diagnostic has to mark
  · have here := tracks.after (tokens_of_nodes fails.nodes)
    obtain ⟨failure, item⟩ | ⟨token, item, kind⟩ | ⟨token, reached, item, kind⟩ :=
      OperatorTable.cases_of_node?_eq_none fails.obstacle
    · rw [OperatorTable.expression_of_failure_item fails item]
      exact here.next.of_error item
    · obtain ⟨behind, places⟩ := here.next.of_ok item
      obtain ⟨holds, number⟩ := places.holds fun _ same => by
        rw [kind] at same
        cases same
      rw [OperatorTable.expression_of_unregistered fails item kind, after_succ]
      exact behind.points (behind.line_pos_of_holds holds) number holds
    · cases n with
      | zero =>
        rw [after_zero] at item
        obtain ⟨behind, places⟩ := tracks.next.of_ok item
        obtain ⟨atEnd, number, read, _⟩ := places.atEnd kind
        have line : reached = .endOfLine := by
          cases reached with
          | endOfLine => rfl
          | endOfInput =>
            have last := Token.isLast_iff.2 kind
            rw [notLast token item] at last
            contradiction
        rw [OperatorTable.expression_of_ending item kind]
        refine behind.points (read line) ?_ ⟨line, atEnd⟩
        rw [number, Nat.max_eq_left (read line)]
      | succ n => exact kept_of_ending_behind tracks fails item kind (Nat.succ_ne_zero n)

/-! ## One value -/

theorem kept_closeLine (tracks : s.Tracks source) : Kept source (fun _ _ => True) s.closeLine := by
  rw [closeLine]
  split
  · exact ⟨tracks, trivial⟩
  · have kept := tracks.next
    generalize s.next = taken at kept
    obtain ⟨failure | token, s₁⟩ := taken
    · exact kept
    · obtain ⟨tracks₁, places⟩ := kept
      simp only
      split
      · exact ⟨tracks₁, trivial⟩
      · next notEnding =>
        obtain ⟨holds, number⟩ := places.holds notEnding
        exact tracks₁.points (tracks₁.line_pos_of_holds holds) number holds

theorem kept_nextValue (table : OperatorTable) (tracks : s.Tracks source) :
    Kept source (fun _ _ => True) (table.nextValue s) := by
  rw [OperatorTable.nextValue]
  have kept := tracks.peek
  rcases looked : s.peek with ⟨failure | token, s₁⟩ <;> rw [looked] at kept
  · exact kept
  · obtain ⟨tracks₁, _⟩ := kept
    simp only
    split
    · exact ⟨tracks₁, trivial⟩
    · next notLast =>
      have first : s₁.next.1 = .ok token := by rw [next_of_peek looked, next_eq_of_peek looked]
      have evaluated := kept_expression table tracks₁ fun other same => by
        rw [first] at same
        cases same
        simpa using notLast
      generalize table.expression s₁ = taken at evaluated
      obtain ⟨failure | v, s₂⟩ := taken
      · exact evaluated
      · have closed := kept_closeLine evaluated.1
        simp only
        generalize s₂.closeLine = taken at closed
        obtain ⟨failure | _, s₃⟩ := taken
        · exact closed
        · exact ⟨closed.1, trivial⟩

/-! ## A whole run -/

/-- As long as a run goes on its stream keeps track, and what ends it points at the source. -/
theorem kept_next? {run run' : Run} {result : Except Failure Float}
    (tracks : run.finished = false → run.stream.Tracks source)
    (taken : run.next? = (some result, run')) :
    (∀ failure, result = .error failure → failure.Points source) ∧
      (run'.finished = false → run'.stream.Tracks source) := by
  rw [Run.next?] at taken
  split at taken
  · cases taken
  · next unfinished =>
    have going : run.finished = false := by simpa using unfinished
    have kept := kept_nextValue run.table (tracks going)
    generalize run.table.nextValue run.stream = value at kept taken
    obtain ⟨failure | none | v, s₁⟩ := value
    · cases taken
      refine ⟨fun _ same => ?_, fun going => ?_⟩
      · cases same
        exact kept
      · cases going
    · cases taken
    · cases taken
      refine ⟨fun _ same => ?_, fun _ => kept.1⟩
      cases same

theorem points_of_mem_values {run : Run} (tracks : run.finished = false → run.stream.Tracks source)
    {failure : Failure} (member : .error failure ∈ run.values) : failure.Points source := by
  induction size : run.size using Nat.strongRecOn generalizing run with
  | ind size ih =>
    rw [Run.values] at member
    split at member
    · contradiction
    · next result rest taken =>
      obtain ⟨points, tracks'⟩ := kept_next? tracks taken
      cases List.mem_cons.1 member with
      | inl first => exact points failure first.symm
      | inr later => exact ih _ (size ▸ Run.size_next?_lt taken) tracks' later rfl

theorem mem_values_of_reportFrom {run : Run} {sink : Sink} {count : Nat} {d : Diagnostic}
    (failed : (run.reportFrom sink count).result = .error (.malformed d)) :
    .error (.malformed d) ∈ run.values := by
  induction size : run.size using Nat.strongRecOn generalizing run sink count with
  | ind size ih =>
    rw [Run.reportFrom] at failed
    split at failed
    · split at failed <;> cases failed
    · next taken =>
      cases failed
      rw [Run.values_of_next? taken]
      exact List.mem_cons_self
    · next taken =>
      split at failed
      · rw [Run.values_of_next? taken]
        exact List.mem_cons_of_mem _ (ih _ (size ▸ Run.size_next?_lt taken) failed rfl)
      · cases failed

/-! ## The rows of what is shown -/

theorem oneRow_of_isVisible {text : String} (visible : ∀ c ∈ text.toList, Text.isVisible c = true) :
    OneRow text := by
  intro member
  have feed : Text.isVisible '\n' = false := by decide
  rw [visible _ member] at feed
  exact Bool.false_ne_true feed.symm

theorem Place.Holds.drop_take {place : Place} {line : List Char} {l : Lexeme}
    (holds : place.Holds line l) : (line.take place.stop).drop place.start = l.chars :=
  holds.2 ▸ holds.1.drop_take

/-- The columns of a piece hold it on the trimmed line as well. -/
theorem Place.Holds.drop_take_trimEnd {place : Place} {line : List Char} {l : Lexeme}
    (holds : place.Holds line l) :
    ((Text.trimEnd line).take place.stop).drop place.start = l.chars := by
  obtain ⟨⟨before, after, rfl, start, fits⟩, stop⟩ := holds
  -- trimming stops at the end of the piece at the latest, since no piece ends with a blank
  have solid : ∀ c ∈ (before ++ l.chars).getLast?, Text.isBlank c = false := by
    intro c last
    obtain ⟨d, chars, first, _⟩ := fits.exists_cons
    have nonempty : l.chars ≠ [] := first ▸ List.cons_ne_nil d chars
    rw [List.getLast?_append, List.getLast?_eq_some_getLast nonempty, Option.some_or] at last
    cases last
    exact fits.not_isBlank (List.getLast_mem _)
  obtain ⟨kept, trimmed⟩ := Text.exists_trimEnd_append solid after
  have start : before.length = place.start := start
  rw [Piece.chars, ← List.append_assoc, trimmed, stop, ← start, List.append_assoc]
  exact drop_take_append before l.chars kept

theorem lineFeed_not_mem_trimEnd {line : List Char} (member : Text.encode line ∈ source.lines) :
    '\n' ∉ Text.trimEnd line := by
  intro inside
  obtain ⟨⟨blanks, whole, _⟩, solid⟩ := Text.exists_eq_trimEnd_append line
  obtain ⟨before, behind, split⟩ := List.append_of_mem inside
  -- behind a line feed nothing stands on a line, but a trimmed line does not end with a blank
  have whole : line = before ++ '\n' :: (behind ++ blanks) := by
    rw [whole, split, List.append_assoc, List.cons_append]
  obtain ⟨rfl, rfl⟩ := List.append_eq_nil_iff.1 (Text.eq_nil_of_encode_mem_linesBy member whole)
  rw [split, List.getLast?_concat] at solid
  have blank : Text.isBlank '\n' = true := by decide
  rw [solid '\n' rfl] at blank
  exact Bool.false_ne_true blank

namespace Diagnostic.Points

variable {d : Diagnostic} {place : Place} {line : List Char}

theorem oneRow_message (points : d.Points source place line) : OneRow d.cause.message := by
  refine Cause.oneRow_message fun text repeated => ?_
  -- what a message repeats is a word of the line, or the symbol of an operator that a word names
  have marks := points.marks
  generalize d.cause = cause at repeated marks
  cases cause with
  | strayCharacter c => cases repeated
  | unknownOperator symbol =>
    cases repeated
    obtain ⟨⟨_, _, _, _, _, visible, _⟩, _⟩ := marks
    exact oneRow_of_isVisible visible
  | missingExpression reached => cases repeated
  | missingOperand symbol arity found reached =>
    cases repeated
    exact oneRow_of_isVisible marks.2.2
  | secondExpression lexeme =>
    cases repeated
    obtain ⟨⟨_, _, _, _, _, visible, _⟩, _⟩ := marks
    exact oneRow_of_isVisible visible
  | other message => exact absurd marks id

/-- The text of the diagnostic has five rows; behind the margin the fourth is the line, and the fifth
    has carets under the columns of the place, or one under the first when there are none. -/
theorem exists_rows (points : d.Points source place line) :
    ∃ message position gap lineRow caretRow : List Char,
      d.render.toList.splitOn '\n' = [message, position, gap, lineRow, caretRow] ∧
        lineRow.drop place.marginWidth = Text.trimEnd line ∧
        ∀ i, (caretRow.drop place.marginWidth)[i]? = some '^' ↔
          place.start ≤ i ∧ i < max place.stop (place.start + 1) := by
  have text : '\n' ∉ Text.trimEnd (String.ofList line).toList := by
    rw [String.toList_ofList]
    exact lineFeed_not_mem_trimEnd (List.mem_of_getElem? points.line_eq)
  have note : ∀ note ∈ d.note, OneRow note ∧ '^' ∉ note.toList := by
    rw [points.note_eq]
    exact Cause.plain_note
  have rows := splitOn_render points.place_eq points.code_eq points.oneRow_message
    (by simp [points.file_eq]) (fun remark given => (note remark given).1) text
  obtain ⟨position, gap, lineRow, caretRow, excerpt, lineText, carets⟩ :=
    exists_excerpt_eq d place (String.ofList line) fun remark given => (note remark given).2
  rw [excerpt] at rows
  rw [String.toList_ofList] at lineText
  exact ⟨_, _, _, _, _, rows, lineText, carets⟩

end Diagnostic.Points

/-- Every diagnostic that a run or a report delivers points at the source.
    * Its place has the number of a line of the source, and it shows just this line.
    * The columns of the place are those of the word or the character that is wrong, and of nothing
      else; where something is missing they are the empty range behind the text of the line, which is
      the last line when the input is at its end.
    * Its text has five rows.  Behind margins of the same width the line stands above carets, and the
      carets are under the columns of the place, which hold the piece that is wrong. -/
theorem syntax_errors_point_at_source (table : OperatorTable) (layout : Layout) (source : Source)
    (sink : Sink) (d : Diagnostic)
    (delivered : .error (.malformed d) ∈ (Run.ofSource table layout source).values ∨
      ((Run.ofSource table layout source).report sink).result = .error (.malformed d)) :
    ∃ place line, d.Points source place line ∧
      (∀ l, place.Holds line l → (line.take place.stop).drop place.start = l.chars) ∧
      ∃ message position gap lineRow caretRow : List Char,
        d.render.toList.splitOn '\n' = [message, position, gap, lineRow, caretRow] ∧
          lineRow.drop place.marginWidth = Text.trimEnd line ∧
          (∀ i, (caretRow.drop place.marginWidth)[i]? = some '^' ↔
            place.start ≤ i ∧ i < max place.stop (place.start + 1)) ∧
          ∀ l, place.Holds line l →
            ((lineRow.drop place.marginWidth).take place.stop).drop place.start = l.chars := by
  have tracked : (Run.ofSource table layout source).finished = false →
      (Run.ofSource table layout source).stream.Tracks source :=
    fun _ => tracks_ofSource layout source
  have member : .error (.malformed d) ∈ (Run.ofSource table layout source).values :=
    delivered.elim id mem_values_of_reportFrom
  obtain ⟨place, line, points⟩ := points_of_mem_values tracked member d rfl
  obtain ⟨message, position, gap, lineRow, caretRow, rows, text, carets⟩ := points.exists_rows
  exact ⟨place, line, points, fun l holds => holds.drop_take,
    message, position, gap, lineRow, caretRow, rows, text, carets,
    fun l holds => text ▸ holds.drop_take_trimEnd⟩

/-- The operand is missing behind the digit, in front of the return and the line feed. -/
theorem syntax_error_points_at_short_line :
    let d : Diagnostic :=
      { cause := .missingOperand "+" 2 1 .endOfLine, note := "reached end of line",
        code := "+ 1\r\n", place := some ⟨1, 3, 3⟩ }
    .error (.malformed d) ∈ (Run.ofSource basicTable .linewise (.ofString "+ 1\r\n")).values ∧
      d.Points (.ofString "+ 1\r\n") ⟨1, 3, 3⟩ "+ 1\r\n".toList ∧
      d.render = "operator `+` expects 2 operands, found 1\n --> <input>:1:4\n  |\n1 | + 1\n" ++
        "  |    ^ reached end of line" := by
  intro d
  have items : (TokenStream.ofSource .linewise (.ofString "+ 1\r\n")).results 2 =
      [.ok ⟨.word, "+", ⟨1, 0, 1⟩⟩, .ok ⟨.number 1, "1", ⟨1, 2, 3⟩⟩] := rfl
  have item : ((TokenStream.ofSource .linewise (.ofString "+ 1\r\n")).after 2).next.1 =
      .ok ⟨.ending .endOfLine, "", ⟨1, 3, 3⟩⟩ := rfl
  have shown : ((TokenStream.ofSource .linewise (.ofString "+ 1\r\n")).after 3).diagnose
      (.missingOperand "+" 2 1 .endOfLine) ⟨1, 3, 3⟩ = d := rfl
  have fails : basicTable.FailsAt (.ofSource .linewise (.ofString "+ 1\r\n")) 2 := by decide +kernel
  let plus : Operator := .binary "+" (· + ·)
  have found : basicTable.find? "+" = some plus := rfl
  have reads : ((TokenStream.ofSource .linewise (.ofString "+ 1\r\n")).results 2).map basicTable.node? =
      [.operator plus, .number 1].map some := by
    simp only [items, List.map_cons, List.map_nil, OperatorTable.node?, OperatorTable.head?, found,
      Option.map_some]
  have innermost : Innermost [.operator plus, .number 1] plus 1 :=
    ⟨[], [.number 1], by simp [forest, Expression.preorder], rfl, by decide⟩
  obtain ⟨_, _, refused, _⟩ :=
    OperatorTable.nextValue_of_outcome (.refused item (.unfinished fails rfl reads innermost))
  have values : (Run.ofSource basicTable .linewise (.ofString "+ 1\r\n")).values =
      [.error (.malformed d)] := by
    rw [← shown]
    exact Run.values_of_failure refused
  have delivered : .error (.malformed d) ∈
      (Run.ofSource basicTable .linewise (.ofString "+ 1\r\n")).values := by
    rw [values]
    exact List.mem_singleton_self _
  obtain ⟨place, line, points, _⟩ :=
    syntax_errors_point_at_source basicTable .linewise (.ofString "+ 1\r\n") {} d (.inl delivered)
  obtain rfl : ⟨1, 3, 3⟩ = place := Option.some.inj points.place_eq
  obtain rfl : "+ 1\r\n".toList = line :=
    (congrArg String.toList (Option.some.inj points.code_eq)).trans String.toList_ofList
  exact ⟨delivered, points, rfl⟩

end Polish
