import Polish.FileTree
import Polish.Invocation
import Polish.Report

/-! # The command line

The program evaluates the expressions of a file or of the standard input.

* `evaluateFile` treats an input file: every line of it is one expression, and diagnostics name the
  file.
* `evaluateLines` treats the standard input: every line of it is a text of its own with any number
  of expressions, and diagnostics name the line by its real number.
* `execute` is the whole program on a file tree.  The output is made before the input is opened, and
  it holds what was written even if the evaluation fails.
-/

namespace Polish

def Options.table (options : Options) : OperatorTable :=
  if options.extended then extendedTable else basicTable

/-! ## Evaluation -/

structure Written where
  result : Except Failure Nat
  sink : Sink

def evaluateFile (table : OperatorTable) (name : String) (source : Source) (sink : Sink) : Written :=
  let report := (Run.ofSource table .linewise source).report sink
  ⟨report.result.mapError (.mapDiagnostic (·.withFile name)), report.sink⟩

def lineBody (line : List Char) : List Char :=
  match line.reverse with
  | '\n' :: '\r' :: body => body.reverse
  | '\n' :: body => body.reverse
  | _ => line

def standardInput : String := "<stdin>"

def evaluateLine (table : OperatorTable) (number : Nat) (line : List Char) (sink : Sink) : Written :=
  let source := Source.ofString (String.ofList (lineBody line))
  let report := (Run.ofSource table .freeform source).report sink
  ⟨report.result.mapError (.mapDiagnostic fun d => (d.renumber number).withFile standardInput),
    report.sink⟩

def evaluateLines (table : OperatorTable) (number : Nat) (sink : Sink) : List Read → Written
  | [] => ⟨.ok 0, sink⟩
  | read :: rest =>
    match read.outcome with
    | .error message => ⟨.error (.io message), sink⟩
    | .ok line =>
      let first := evaluateLine table number line sink
      match first.result with
      | .error failure => ⟨.error failure, first.sink⟩
      | .ok count =>
        let others := evaluateLines table (number + 1) first.sink rest
        ⟨others.result.map (count + ·), others.sink⟩

/-! ## The program -/

structure Outcome where
  status : Nat
  stdout : Array UInt8 := #[]
  stderr : String := ""
  files : FileTree

def openFailure (path : String) (fault : PathFault) : Failure :=
  .io (path ++ ": " ++ fault.message)

def failureLine (failure : Failure) : String :=
  "error: " ++ failure.render ++ "\n"

def evaluateInput (options : Options) (path : String) (tree : FileTree) : Written :=
  match tree.read path with
  | .error fault => ⟨.error (openFailure path fault), {}⟩
  | .ok source => evaluateFile options.table path source {}

theorem evaluateInput_of_fault {path : String} {tree : FileTree} {fault : PathFault}
    (failed : tree.target path = .error fault) (options : Options) :
    evaluateInput options path tree = ⟨.error (openFailure path fault), {}⟩ := by
  rw [evaluateInput, FileTree.read, failed]
  rfl

theorem evaluateInput_of_node {path : String} {tree : FileTree} {node : Node}
    (found : tree.target path = .ok node) (options : Options) :
    evaluateInput options path tree = evaluateFile options.table path node.source {} := by
  rw [evaluateInput, FileTree.read, found]
  rfl

def Written.toOutcome (written : Written) (files : FileTree) : Outcome :=
  match written.result with
  | .ok _ => ⟨0, written.sink.content, "", files⟩
  | .error failure => ⟨1, written.sink.content, failureLine failure, files⟩

theorem Written.toOutcome_of_ok {written : Written} {count : Nat} (succeeds : written.result = .ok count)
    (files : FileTree) : written.toOutcome files = ⟨0, written.sink.content, "", files⟩ := by
  rw [toOutcome, succeeds]

theorem Written.toOutcome_of_error {written : Written} {failure : Failure}
    (failed : written.result = .error failure) (files : FileTree) :
    written.toOutcome files = ⟨1, written.sink.content, failureLine failure, files⟩ := by
  rw [toOutcome, failed]

@[simp]
theorem Written.stdout_toOutcome (written : Written) (files : FileTree) :
    (written.toOutcome files).stdout = written.sink.content := by
  rw [toOutcome]
  split <;> rfl

@[simp]
theorem Written.files_toOutcome (written : Written) (files : FileTree) :
    (written.toOutcome files).files = files := by
  rw [toOutcome]
  split <;> rfl

def evaluateOptions (options : Options) (stdin : List UInt8) (files : FileTree) : Outcome :=
  match options.input, options.output with
  | none, _ =>
    (evaluateLines options.table 1 {} (Source.reads [.data stdin])).toOutcome files
  | some input, none => (evaluateInput options input files).toOutcome files
  | some input, some output =>
    -- the output is made first, so that an input that cannot be opened leaves it empty
    match files.create output with
    | .error fault => ⟨1, #[], failureLine (openFailure output fault), files⟩
    | .ok (location, files) =>
      let written := evaluateInput options input files
      { written.toOutcome (files.put location written.sink.content.toList) with stdout := #[] }

theorem evaluateOptions_of_no_input {options : Options} (noInput : options.input = none)
    (stdin : List UInt8) (files : FileTree) :
    evaluateOptions options stdin files =
      (evaluateLines options.table 1 {} (Source.reads [.data stdin])).toOutcome files := by
  rw [evaluateOptions, noInput]

theorem evaluateOptions_of_input {options : Options} {path : String} (input : options.input = some path)
    (noOutput : options.output = none) (stdin : List UInt8) (files : FileTree) :
    evaluateOptions options stdin files = (evaluateInput options path files).toOutcome files := by
  rw [evaluateOptions, input, noOutput]

theorem evaluateOptions_of_fault {options : Options} {path target : String}
    (input : options.input = some path) (output : options.output = some target) {files : FileTree}
    {fault : PathFault} (failed : files.create target = .error fault) (stdin : List UInt8) :
    evaluateOptions options stdin files = ⟨1, #[], failureLine (openFailure target fault), files⟩ := by
  rw [evaluateOptions, input, output]
  simp only [failed]

theorem evaluateOptions_of_created {options : Options} {path target : String}
    (input : options.input = some path) (output : options.output = some target)
    {files made : FileTree} {location : Location} (created : files.create target = .ok (location, made))
    (stdin : List UInt8) :
    evaluateOptions options stdin files =
      { (evaluateInput options path made).toOutcome
          (made.put location (evaluateInput options path made).sink.content.toList) with stdout := #[] } := by
  rw [evaluateOptions, input, output]
  simp only [created]

/-- The program: arguments, standard input and files before, and all that is left after. -/
def execute (arguments : List String) (stdin : List UInt8) (files : FileTree) : Outcome :=
  match Invocation.ofArguments arguments with
  | .evaluate options => evaluateOptions options stdin files
  | .help => ⟨0, (Text.encode helpText.toList).toArray, "", files⟩
  | .version => ⟨0, (Text.encode versionText.toList).toArray, "", files⟩
  | .misuse reason => ⟨2, #[], "error: " ++ reason ++ "\n" ++ usage, files⟩

end Polish
