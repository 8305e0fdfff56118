import Polish.Proofs.LayoutRefinement
import Polish.Proofs.RoundTrip
import Polish.Proofs.StandardInput
import Polish.Proofs.Succession

/-! # A file and the standard input

A file is evaluated line by line by one run, in which the ends of lines count.  Of the standard input
every line is a text of its own, without its end and with any number of expressions.  What the file
gives is what the same bytes give as standard input, as far as it goes.

* `Fault.body`: what is wrong with a line is wrong with its body, at the same columns.
* `values_of_free_outcome`: a run that fails inside a line fails in the same way where line feeds are
  blanks.
* `lineReport_of_spells` and `lineReport_of_fault`: what a line alone comes to, by its form.
* `Agrees` compares the ends of the two and `Leads` what they give; `leads_of_course` goes along the
  lines.
* `file_agrees_with_standard_input` says it of the program.
-/

namespace Polish

/-! ## The body of a line -/

theorem exists_eq_lineBody_append_ending (line : List Char) :
    ∃ ending, line = lineBody line ++ ending ∧ (∀ c ∈ ending, c = '\n' ∨ c = '\r') ∧
      ∀ c ∈ ending, Text.isBlank c = true := by
  obtain ⟨ending, whole, ⟨rfl, _⟩ | rfl | rfl⟩ := exists_eq_lineBody_append line
  · exact ⟨[], whole, by simp, by simp⟩
  · exact ⟨_, whole, by simp, List.all_eq_true.1 (by decide)⟩
  · exact ⟨_, whole, by simp, List.all_eq_true.1 (by decide)⟩

theorem pieces_lineBody (line : List Char) : pieces (lineBody line) = pieces line := by
  obtain ⟨ending, whole, _, blank⟩ := exists_eq_lineBody_append_ending line
  exact ((congrArg pieces whole).trans (pieces_append_blank blank _)).symm

theorem trimEnd_lineBody (line : List Char) : Text.trimEnd (lineBody line) = Text.trimEnd line := by
  obtain ⟨ending, whole, _, blank⟩ := exists_eq_lineBody_append_ending line
  exact ((congrArg Text.trimEnd whole).trans (Text.trimEnd_append_blank blank _)).symm

theorem lineWidth_lineBody (line : List Char) :
    TokenStream.lineWidth (lineBody line) = TokenStream.lineWidth line := by
  obtain ⟨ending, whole, ends, _⟩ := exists_eq_lineBody_append_ending line
  exact ((congrArg TokenStream.lineWidth whole).trans (TokenStream.lineWidth_append ends _)).symm

/-! ## What is wrong with a line -/

/-- What is a mistake only where every line is to be one expression. -/
def Cause.IsLineRule (cause : Cause) : Prop :=
  cause = .missingExpression .endOfLine ∨ ∃ lexeme, cause = .secondExpression lexeme

/-- The same is said of the line with the number `n` and of its body alone. -/
structure SameFault (n : Nat) (line : List Char) (d d' : Diagnostic) : Prop where
  message : d'.cause.message = d.cause.message
  note : d'.note = d.note ∨ d.note = some "reached end of line" ∧ d'.note = some "reached end of input"
  place : ∃ start stop, d.place = some ⟨n, start, stop⟩ ∧ d'.place = some ⟨1, start, stop⟩
  code : d.code = some (String.ofList line) ∧ d'.code = some (String.ofList (lineBody line))

namespace OperatorTable

variable {table : OperatorTable} {n : Nat} {line : List Char} {d : Diagnostic}

theorem Fault.body (fault : table.Fault n line d) (single : '\n' ∉ lineBody line)
    (noRule : ¬ d.cause.IsLineRule) :
    ∃ d', table.Fault 1 (lineBody line) d' ∧ ¬ d'.cause.IsLineRule ∧ SameFault n line d d' := by
  have pieces_eq := pieces_lineBody line
  cases fault with
  | blank => exact absurd (.inl rfl) noRule
  | second => exact absurd (.inr ⟨_, rfl⟩) noRule
  | stray split before stray =>
    exact ⟨_, .stray (pieces_eq.trans split) before stray, noRule, rfl, .inl rfl, ⟨_, _, rfl, rfl⟩, rfl, rfl⟩
  | unknown split opens word obstacle =>
    exact ⟨_, .unknown (pieces_eq.trans split) opens word obstacle, noRule,
      rfl, .inl rfl, ⟨_, _, rfl, rfl⟩, rfl, rfl⟩
  | unfinished opens innermost =>
    refine ⟨_, .unfinished (pieces_eq.symm ▸ opens) innermost, ?_, rfl, ?_, ⟨_, _, rfl, ?_⟩, rfl, rfl⟩
    · rintro (⟨⟨⟩⟩ | ⟨_, ⟨⟩⟩)
    -- the line may end with a line feed, and its body does not
    · rw [terminatorOf_of_not_mem single]
      cases terminatorOf line with
      | endOfLine => exact .inr ⟨rfl, rfl⟩
      | endOfInput => exact .inl rfl
    · rw [Diagnostic.located, endingOf, Token.ofEnding, lineWidth_lineBody]

theorem Fault.pieces_ne_nil (fault : table.Fault n line d) (noRule : ¬ d.cause.IsLineRule) :
    pieces line ≠ [] := by
  cases fault with
  | blank => exact absurd (.inl rfl) noRule
  | second => exact absurd (.inr ⟨_, rfl⟩) noRule
  | stray split => simp [split]
  | unknown split => simp [split]
  | unfinished opens innermost => exact opens.ne_nil innermost

end OperatorTable

/-! ## Where line feeds are blanks -/

open TokenStream OperatorTable

variable {table : OperatorTable} {s : TokenStream} {n : Nat}

/-- A failure inside a line is one where line feeds are blanks, too; but there an expression that stands
    in front of it gives its value first. -/
theorem values_of_free_outcome {failure : Failure} (idle : s.lookahead = none)
    (outcome : table.Outcome s n (.error failure)) (inside : ∀ item ∈ s.results n, ¬ IsLineEnd item)
    (noRule : ∀ d, failure = .malformed d → ¬ d.cause.IsLineRule) :
    ∃ vs, (⟨table, s.free, false⟩ : Run).values = delivery vs (some failure) := by
  obtain ⟨same, after⟩ := gives_free idle inside
  cases outcome with
  | @failure n failure item nodes =>
    have item' : (s.free.after n).next.1 = .error failure := (next_of_results same).trans item
    obtain fails | ⟨_, tree, rfl, reads⟩ := nodes
    · obtain ⟨_, _, value, _⟩ := nextValue_of_outcome (.failure item' (.inl (fails.transfer same)))
      exact ⟨[], Run.values_of_failure value⟩
    · have reads' : table.Reads s.free tree.preorder :=
        reads.transfer (results_of_le same (Nat.le_succ _))
      obtain ⟨s₁, _, value, _, goesOn⟩ := nextValue_of_outcome (.value reads' rfl)
      obtain rfl := goesOn _ rfl
      have fails : table.FailsAt (s.free.after tree.preorder.length) 0 :=
        failsAt_zero (by rw [item']; rfl)
      have first : ((s.free.after tree.preorder.length).after 0).next.1 = .error failure := item'
      obtain ⟨_, _, failed, _⟩ := nextValue_of_outcome (.failure first (.inl fails))
      refine ⟨[tree.value], ?_⟩
      rw [Run.values_of_value value, Run.values_of_failure failed]
      rfl
  | @refused n token cause item refuses =>
    have item' : (s.free.after n).next.1 = .ok token := (next_of_results same).trans item
    have refuses' : table.Refuses s.free token n cause := by
      cases refuses with
      | second => exact absurd (.inr ⟨_, rfl⟩) (noRule _ rfl)
      | unknown fails kind => exact .unknown (fails.transfer same) kind
      | missing fails kind => exact absurd (.inl rfl) (noRule _ rfl)
      | unfinished fails kind reads innermost =>
        exact .unfinished (fails.transfer same) kind (results_of_le same (Nat.le_succ _) ▸ reads) innermost
    obtain ⟨_, _, value, _⟩ := nextValue_of_outcome (.refused item' refuses')
    refine ⟨[], (Run.values_of_failure value).trans ?_⟩
    rw [after]
    rfl

/-- A text without a line feed has no end of a line. -/
theorem not_isLineEnd_of_text {source : Source} {cs : List Char} (holds : source.Holds cs)
    (single : '\n' ∉ cs) (n : Nat) :
    ∀ item ∈ (ofSource .linewise source).results n, ¬ IsLineEnd item := by
  intro item member
  obtain ⟨last, number, results⟩ := results_of_holds holds .linewise n
  have among := results ▸ mem_results_of_le (Nat.le_trans n.le_succ (Nat.le_add_left (n + 1) _)) member
  obtain inside | behind := List.mem_append.1 among
  · obtain rfl | other := eq_or_ne cs []
    · exact (List.not_mem_nil inside).elim
    · have open_ : ¬ cs.getLast? = some '\n' := fun feed => single (List.mem_of_getLast? feed)
      rw [linesBy_of_not_mem single other, itemsOfLines, itemsOfLines, List.append_nil, itemsOfLine,
        if_neg fun both => open_ both.2, List.append_nil] at inside
      obtain ⟨p, _, rfl⟩ := List.mem_map.1 inside
      exact not_isLineEnd_item cs 1 p
  · rw [List.eq_of_mem_replicate behind]
    rintro ⟨token, same, kind⟩
    cases same
    cases kind

/-! ## One line alone -/

/-- The body of a line is a line of its own. -/
theorem awaits_lineBody {line : List Char} (single : '\n' ∉ lineBody line) (some : pieces line ≠ []) :
    (ofSource .linewise (.ofString (String.ofList (lineBody line)))).Awaits 0 [lineBody line] := by
  have body : lineBody line ≠ [] := fun none =>
    some (by rw [← pieces_lineBody, none]; exact pieces_eq_nil_iff.2 (by simp))
  have holds := Source.holds_ofString (String.ofList (lineBody line))
  rw [String.toList_ofList] at holds
  rw [← linesBy_of_not_mem single body]
  exact .lines ⟨rfl, rfl⟩ rfl rfl (Source.reads_of_text holds)

/-- An expression gives its value, whether the end of its line counts or not. -/
theorem lineReport_of_spells {line : List Char} {tree : Expression} (single : '\n' ∉ lineBody line)
    (spells : table.Spells (pieces line) tree) :
    Succeeds table line ∧ lineOutput table line = linesOf [tree.value] := by
  have holds := Source.holds_ofString (String.ofList (lineBody line))
  rw [String.toList_ofList] at holds
  rw [← pieces_lineBody] at spells
  have given : (Run.ofSource table .freeform (.ofString (String.ofList (lineBody line)))).values =
      delivery [tree.value] none := values_of_line holds single spells .freeform
  obtain ⟨result, content, _⟩ := Run.report_of_free given Sink.free_empty
  exact ⟨⟨_, result⟩, content⟩

theorem lineReport_of_fault {line : List Char} {d : Diagnostic} (single : '\n' ∉ lineBody line)
    (fault : table.Fault n line d) (noRule : ¬ d.cause.IsLineRule) :
    ∃ d', (lineReport table line).result = .error (.malformed d') ∧ SameFault n line d d' := by
  obtain ⟨d', fault', noRule', same⟩ := fault.body single noRule
  refine ⟨d', ?_, same⟩
  have holds := Source.holds_ofString (String.ofList (lineBody line))
  rw [String.toList_ofList] at holds
  obtain ⟨s', lays, _⟩ := (awaits_lineBody single (fault.pieces_ne_nil noRule)).exists_lays
    fun more => absurd rfl more
  obtain ⟨_, failed⟩ := lays.nextValue_of_fault fault'
  obtain ⟨n, result, outcome⟩ := exists_outcome table
    (ofSource .linewise (.ofString (String.ofList (lineBody line))))
  obtain ⟨_, _, value, _⟩ := nextValue_of_outcome outcome
  cases failed.symm.trans value
  obtain ⟨vs, values⟩ := values_of_free_outcome rfl outcome (not_isLineEnd_of_text holds single n)
    fun other same => Failure.malformed.inj same ▸ noRule'
  have given : (Run.ofSource table .freeform (.ofString (String.ofList (lineBody line)))).values =
      delivery vs (some (.malformed d')) := values
  exact (Run.report_of_free given Sink.free_empty).1

/-! ## Along the lines -/

/-- How a file ends, and how the same bytes end as standard input. -/
inductive Agrees : Option Failure → Option Failure → Prop where
  | clean : Agrees none none
  | invalid : Agrees (some (.io invalidText)) (some (.io invalidText))
  | fault {n : Nat} {line : List Char} {d d' : Diagnostic} (same : SameFault n line d d') :
      Agrees (some (.malformed d)) (some (showOnLine n (.malformed d')))
  | rule {d : Diagnostic} {final : Option Failure} (rule : d.cause.IsLineRule) :
      Agrees (some (.malformed d)) final

/-- A file gives the first part of what the lines give, all of it if it does not fail. -/
def Leads (table : OperatorTable) (values : List (Except Failure Float)) (evaluated : List (List Char))
    (final : Option Failure) : Prop :=
  ∃ vs ends, values = delivery vs ends ∧ Agrees ends final ∧
    linesOf vs <+: evaluated.flatMap (lineOutput table) ∧
    (ends = none → linesOf vs = evaluated.flatMap (lineOutput table))

variable {values : List (Except Failure Float)} {evaluated : List (List Char)} {final : Option Failure}
  {line : List Char} {s' : TokenStream}

theorem leads_of_failure {failure : Failure} (ends : values = delivery [] (some failure))
    (agrees : Agrees (some failure) final) : Leads table values evaluated final :=
  ⟨[], some failure, ends, agrees, List.nil_prefix, fun same => by cases same⟩

theorem leads_of_end (ends : values = delivery [] none)
    (nothing : evaluated.flatMap (lineOutput table) = []) : Leads table values evaluated none :=
  ⟨[], none, ends, .clean, List.nil_prefix, fun _ => nothing.symm⟩

theorem Leads.cons {v : Float} (leads : Leads table values evaluated final)
    (output : lineOutput table line = linesOf [v]) :
    Leads table (.ok v :: values) (line :: evaluated) final := by
  obtain ⟨vs, ends, rfl, agrees, grows, all⟩ := leads
  have alone : (line :: evaluated).flatMap (lineOutput table) =
      linesOf [v] ++ evaluated.flatMap (lineOutput table) := by
    rw [List.flatMap_cons, output]
  have together : linesOf (v :: vs) = linesOf [v] ++ linesOf vs := by
    rw [linesOf_cons, linesOf_cons, linesOf_nil, List.append_nil]
  refine ⟨v :: vs, ends, rfl, agrees, ?_, fun none => ?_⟩
  · rw [alone, together]
    exact (List.prefix_append_right_inj _).2 grows
  · rw [alone, together, all none]

/-- The file ends at a line that is no expression. -/
theorem leads_of_fault {d : Diagnostic} (lays : s.Lays n line s') (fault : table.Fault n line d)
    (single : '\n' ∉ lineBody line)
    (alone : ∀ d', (lineReport table line).result = .error (.malformed d') →
      final = some (showOnLine n (.malformed d'))) :
    Leads table (⟨table, s, false⟩ : Run).values evaluated final := by
  obtain ⟨_, failed⟩ := lays.nextValue_of_fault fault
  refine leads_of_failure (Run.values_of_failure failed) ?_
  by_cases rule : d.cause.IsLineRule
  · exact .rule rule
  · obtain ⟨d', report, same⟩ := lineReport_of_fault single fault rule
    rw [alone d' report]
    exact .fault same

/-- At a line that fails alone the file ends, too. -/
theorem leads_of_failed_line {failure : Failure} (lays : s.Lays n line s') (single : '\n' ∉ lineBody line)
    (alone : (lineReport table line).result = .error failure) :
    Leads table (⟨table, s, false⟩ : Run).values evaluated (some (showOnLine n failure)) := by
  obtain ⟨tree, spells⟩ | ⟨blank, _⟩ | ⟨d, fault⟩ := table.spells_or_vacant_or_fault n line
  · obtain ⟨⟨count, succeeds⟩, _⟩ := lineReport_of_spells single spells
    cases alone.symm.trans succeeds
  · obtain ⟨⟨count, succeeds⟩, _⟩ := lineReport_of_blank table blank
    cases alone.symm.trans succeeds
  · exact leads_of_fault lays fault single fun d' report => by
      cases alone.symm.trans report
      rfl

/-- A line that does not fail alone: the file gives its value and goes on, or it ends. -/
theorem leads_of_line (lays : s.Lays n line s') (single : '\n' ∉ lineBody line)
    (succeeds : Succeeds table line) (others : Leads table (⟨table, s', false⟩ : Run).values evaluated final)
    (last : Vacant line → evaluated = [] ∧ final = none) :
    Leads table (⟨table, s, false⟩ : Run).values (line :: evaluated) final := by
  obtain ⟨tree, spells⟩ | vacant | ⟨d, fault⟩ := table.spells_or_vacant_or_fault n line
  · rw [Run.values_of_value (lays.nextValue_of_spells spells)]
    exact others.cons (lineReport_of_spells single spells).2
  · obtain ⟨rfl, rfl⟩ := last vacant
    refine leads_of_end (Run.values_of_end (nextValue_of_atEnd (lays.atEnd_of_vacant vacant))) ?_
    rw [List.flatMap_singleton, (lineReport_of_blank table vacant.1).2]
  · obtain ⟨count, result⟩ := succeeds
    exact leads_of_fault lays fault single fun d' report => by cases result.symm.trans report

/-- From line to line: a file gives what the lines alone give, up to the first line that is no
    expression. -/
theorem leads_of_course {number : Nat} {lines : List (List UInt8)}
    (course : Course table number lines evaluated final) (counted : number = n + 1)
    (stands : s.Stands n (lines.map .ofBytes))
    (closed : ∀ before line later, lines = before ++ Text.encode line :: later → later ≠ [] →
      terminatorOf line = .endOfLine)
    (single : ∀ line, Text.encode line ∈ lines → '\n' ∉ lineBody line) :
    Leads table (⟨table, s, false⟩ : Run).values evaluated final := by
  induction course generalizing s n with
  | usedUp =>
    have atEnd : s.AtEnd := (@Stands.awaits s n [] stands).atEnd
    exact leads_of_end (Run.values_of_end (nextValue_of_atEnd atEnd)) rfl
  | @invalid number bytes later invalid =>
    have lost : (Read.ofBytes bytes).outcome = .error invalidText := by rw [Read.ofBytes, invalid]
    rw [List.map_cons] at stands
    cases stands with
    | reads ready _ nothing unread =>
      have failed := ready.next_of_answers (.failed nothing unread lost)
      exact leads_of_failure (Run.values_of_failure (nextValue_of_failed_read failed)) .invalid
  | @fails number line later failure alone =>
    rw [List.map_cons, Read.ofBytes_encode] at stands
    obtain ⟨s', lays, _⟩ := stands.exists_lays fun more =>
      closed [] line later rfl (mt List.map_eq_nil_iff.2 more)
    rw [counted]
    exact leads_of_failed_line lays (single line List.mem_cons_self) alone
  | @goesOn number line later evaluated final succeeds others ih =>
    rw [List.map_cons, Read.ofBytes_encode] at stands
    obtain ⟨s', lays, stands'⟩ := stands.exists_lays fun more =>
      closed [] line later rfl (mt List.map_eq_nil_iff.2 more)
    have leads := ih (by rw [counted]) stands'
      (fun before other later same => closed (Text.encode line :: before) other later
        (by rw [same, List.cons_append]))
      fun other member => single other (List.mem_cons_of_mem _ member)
    refine leads_of_line lays (single line List.mem_cons_self) succeeds leads fun vacant => ?_
    -- a line without a line feed is the last one
    obtain rfl : later = [] := by
      by_contra more
      have ends := vacant.2
      rw [closed [] line later rfl more] at ends
      cases ends
    cases others
    exact ⟨rfl, rfl⟩

/-! ## What is shown -/

/-- Two diagnostics say the same of the same columns of a line with the same number and text, blanks at
    its end aside.  Where the one reached the end of the line the other may have reached that of the
    input. -/
structure Diagnostic.SameSpot (d d' : Diagnostic) : Prop where
  message : d'.cause.message = d.cause.message
  note : d'.note = d.note ∨ d.note = some "reached end of line" ∧ d'.note = some "reached end of input"
  place : ∃ place, d.place = some place ∧ d'.place = some place
  code : ∃ code code', d.code = some code ∧ d'.code = some code' ∧
    Text.trimEnd code'.toList = Text.trimEnd code.toList

/-- But for the name of the file and the note they are shown in the same way. -/
theorem Diagnostic.SameSpot.render_eq {d d' : Diagnostic} (same : d.SameSpot d') :
    { d' with file := d.file, note := d.note }.render = d.render := by
  obtain ⟨place, placed, placed'⟩ := same.place
  obtain ⟨code, code', coded, coded', text⟩ := same.code
  simp only [render, placed, placed', coded, coded', excerpt, position, same.message, text]

theorem SameFault.sameSpot {line : List Char} {d d' : Diagnostic} (same : SameFault n line d d')
    (path : String) : (d.withFile path).SameSpot ((d'.renumber n).withFile standardInput) := by
  obtain ⟨start, stop, placed, placed'⟩ := same.place
  refine ⟨same.message, same.note, ⟨_, placed, ?_⟩, _, _, same.code.1, same.code.2, ?_⟩
  · simp only [Diagnostic.withFile, Diagnostic.renumber, placed', Option.map_some]
  · rw [String.toList_ofList, String.toList_ofList, trimEnd_lineBody]

theorem Cause.message_of_isLineRule {cause : Cause} (rule : cause.IsLineRule) :
    cause.message = "expected an expression, found end of line" ∨
      ∃ lexeme, cause.message = "expected end of line after expression, found `" ++ lexeme ++ "`" := by
  obtain rfl | ⟨lexeme, rfl⟩ := rule
  · exact .inl rfl
  · exact .inr ⟨lexeme, rfl⟩

/-! ## The program -/

theorem terminatorOf_of_linesBy_bytes {bytes : List UInt8} {before later : List (List UInt8)}
    {line : List Char} (split : linesBy Source.lineFeed bytes = before ++ Text.encode line :: later)
    (more : later ≠ []) : terminatorOf line = .endOfLine := by
  have reads := reads_data bytes
  rw [split, List.map_append, List.map_cons, Read.ofBytes_encode] at reads
  exact if_pos (Source.getLast?_of_reads reads (by simpa using more) rfl)

theorem evaluateFile_of_delivery {source : Source} {vs : List Float} {ends : Option Failure}
    (given : (Run.ofSource table .linewise source).values = delivery vs ends) (path : String) :
    (evaluateFile table path source {}).result =
        ends.elim (.ok vs.length) (fun failure => .error (failure.mapDiagnostic (·.withFile path))) ∧
      (evaluateFile table path source {}).sink.content.toList = linesOf vs := by
  obtain ⟨result, content, _⟩ := Run.report_of_free given Sink.free_empty
  refine ⟨?_, content⟩
  rw [evaluateFile, result]
  cases ends <;> rfl

/-- A file and the same bytes as standard input.
    * What the file gives is the first part of what the standard input gives, and if the file does not
      fail it is all, and the standard input does not fail either.
    * If the file fails at a line that is no text, so does the standard input, with the same error.
    * If the file fails with a syntax error, it is one that only the rule of one expression for each line
      makes, or the standard input fails with the same error, at the same columns of the same line; only
      the name of the file differs, and the end of a line that was reached may be that of the input. -/
theorem file_agrees_with_standard_input {arguments arguments' : List String} {extended : Bool}
    {path : String}
    (invoked : Invocation.ofArguments arguments = .evaluate { extended := extended, input := some path })
    (invoked' : Invocation.ofArguments arguments' = .evaluate { extended := extended })
    {content : List UInt8} {files : FileTree} (found : files.target path = .ok (.file content))
    (stdin : List UInt8) (files' : FileTree) :
    let file := execute arguments stdin files
    let standard := execute arguments' content files'
    let result := (evaluateInput { extended := extended, input := some path } path files).result
    file.stdout.toList <+: standard.stdout.toList ∧
      ((∃ count, result = .ok count) ∧ file.status = 0 ∧ file.stderr = "" ∧
          standard.status = 0 ∧ standard.stderr = "" ∧ standard.stdout = file.stdout ∨
        result = .error (.io invalidText) ∧
          file.status = 1 ∧ file.stderr = "error: stream did not contain valid UTF-8\n" ∧
          standard.status = 1 ∧ standard.stderr = file.stderr ∨
        ∃ d : Diagnostic, result = .error (.malformed d) ∧ d.file = some path ∧
          file.status = 1 ∧ file.stderr = "error: syntax error: " ++ d.render ++ "\n" ∧
          (d.cause.message = "expected an expression, found end of line" ∨
            (∃ lexeme, d.cause.message =
              "expected end of line after expression, found `" ++ lexeme ++ "`") ∨
            ∃ d' : Diagnostic, d'.file = some "<stdin>" ∧
              standard.status = 1 ∧ standard.stderr = "error: syntax error: " ++ d'.render ++ "\n" ∧
              d.SameSpot d' ∧ { d' with file := d.file, note := d.note }.render = d.render)) := by
  intro file standard result
  let table := ({ extended := extended } : Options).table
  let lines := linesBy Source.lineFeed content
  obtain ⟨evaluated, final, course⟩ := exists_course table 1 lines
  obtain ⟨finish, printed⟩ := course.evaluateLines_eq Sink.free_empty
  obtain ⟨vs, ends, values, agrees, grows, all⟩ := leads_of_course course rfl
    (s := .ofSource .linewise [.data content]) (.reads ⟨rfl, rfl⟩ rfl rfl (reads_data content))
    (fun _ _ _ => terminatorOf_of_linesBy_bytes) fun _ => lineFeed_not_mem_lineBody
  obtain ⟨came, written⟩ := evaluateFile_of_delivery values path
  have input_eq : evaluateInput { extended := extended, input := some path } path files =
      evaluateFile table path [.data content] {} := evaluateInput_of_node found _
  have result_eq : result = _ := (congrArg Written.result input_eq).trans came
  have file_eq : file = (evaluateFile table path [.data content] {}).toOutcome files := by
    rw [← input_eq]
    simp only [file, execute, invoked]
    exact evaluateOptions_of_input rfl rfl stdin files
  have standard_eq : standard = (evaluateLines table 1 {} (lines.map .ofBytes)).toOutcome files' := by
    rw [← reads_data]
    simp only [standard, execute, invoked']
    exact evaluateOptions_of_no_input rfl content files'
  rw [List.nil_append] at printed
  have stdout : file.stdout.toList = linesOf vs := by rw [file_eq, Written.stdout_toOutcome, written]
  have stdout' : standard.stdout.toList = evaluated.flatMap (lineOutput table) := by
    rw [standard_eq, Written.stdout_toOutcome, printed]
  refine ⟨by rw [stdout, stdout']; exact grows, ?_⟩
  cases agrees with
  | clean =>
    obtain ⟨count, succeeds⟩ := finish
    have same : standard.stdout = file.stdout := Array.toList_inj.1 (by rw [stdout, stdout', all rfl])
    refine .inl ⟨⟨_, result_eq⟩, ?_⟩
    rw [same, file_eq, standard_eq, Written.toOutcome_of_ok came, Written.toOutcome_of_ok succeeds]
    exact ⟨rfl, rfl, rfl, rfl, rfl⟩
  | invalid =>
    refine .inr (.inl ⟨result_eq, ?_⟩)
    rw [file_eq, standard_eq, Written.toOutcome_of_error came, Written.toOutcome_of_error finish]
    exact ⟨rfl, rfl, rfl, rfl⟩
  | @fault n line d d' same =>
    have spot := same.sameSpot path
    refine .inr (.inr ⟨d.withFile path, result_eq, rfl, ?_⟩)
    rw [file_eq, standard_eq, Written.toOutcome_of_error came, Written.toOutcome_of_error finish]
    exact ⟨rfl, rfl, .inr (.inr ⟨_, rfl, rfl, rfl, spot, spot.render_eq⟩)⟩
  | @rule d final rule =>
    refine .inr (.inr ⟨d.withFile path, result_eq, rfl, ?_⟩)
    rw [file_eq, Written.toOutcome_of_error came]
    exact ⟨rfl, rfl, (Cause.message_of_isLineRule rule).imp id .inl⟩

/-- A word that is no operator, in front of blanks and the end of the line. -/
theorem file_agrees_with_standard_input_on_unknown :
    let content := Text.encode "x \r\n".toList
    let files : FileTree := ⟨[(["f"], .file content)]⟩
    Invocation.ofArguments ["f"] = .evaluate { extended := false, input := some "f" } ∧
      Invocation.ofArguments [] = .evaluate { extended := false } ∧
      files.target "f" = .ok (.file content) ∧
      ∃ d d' : Diagnostic, d.cause = .unknownOperator "x" ∧
        (execute ["f"] [] files).stderr = "error: syntax error: " ++ d.render ++ "\n" ∧
        (execute [] content ⟨[]⟩).stderr = "error: syntax error: " ++ d'.render ++ "\n" ∧
        d.file = some "f" ∧ d'.file = some "<stdin>" ∧ d.SameSpot d' := by
  intro content files
  have invoked : Invocation.ofArguments ["f"] = .evaluate { extended := false, input := some "f" } := by
    decide
  have invoked' : Invocation.ofArguments [] = .evaluate { extended := false } := by decide
  have found : files.target "f" = .ok (.file content) := by decide
  let start : TokenStream := .ofSource .linewise [.data content]
  obtain ⟨word, item, kind, lexeme⟩ : ∃ word, (start.after 0).next.1 = .ok word ∧ word.kind = .word ∧
      word.lexeme = "x" := ⟨_, rfl, rfl, rfl⟩
  have fails : basicTable.FailsAt start 0 := by decide +kernel
  obtain ⟨_, _, refused, _⟩ := nextValue_of_outcome (.refused item (.unknown fails kind))
  have values : (Run.ofSource basicTable .linewise [.data content]).values = delivery [] (some _) :=
    Run.values_of_failure refused
  have result := (congrArg Written.result (evaluateInput_of_node found { input := some "f" })).trans
    (evaluateFile_of_delivery values "f").1
  obtain ⟨_, ends⟩ := file_agrees_with_standard_input invoked invoked' found [] ⟨[]⟩
  obtain ⟨⟨_, same⟩, _⟩ | ⟨same, _⟩ | ⟨d, same, file, _, stderr, ends⟩ := ends
  · cases result.symm.trans same
  · cases result.symm.trans same
  · cases result.symm.trans same
    have cause : Cause.unknownOperator word.lexeme = .unknownOperator "x" := by rw [lexeme]
    have message : ("unknown operator `" ++ word.lexeme ++ "`").toList.head? = some 'u' := by
      rw [lexeme]
      decide
    obtain other | ⟨lexeme', other⟩ | ⟨d', file', _, stderr', spot, _⟩ := ends
    · cases message.symm.trans (congrArg (·.toList.head?) other)
    · have first := message.symm.trans (congrArg (·.toList.head?) other)
      simp [String.toList_append] at first
    · exact ⟨invoked, invoked', found, _, d', cause, stderr, stderr', file, file', spot⟩

end Polish
