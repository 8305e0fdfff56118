import Polish.Proofs.Paths
import Polish.Proofs.StandardInput
import Polish.Proofs.Succession

/-! # Results in a file

With an output file the program does what it does without, and puts into that file what it would have
printed.  The file is made first.  So an input that cannot be opened leaves it empty, and a file that is
input and output at once is read as an empty one.

* `evaluateInput_congr`: what an evaluation comes to is told by what its path names.
* `evaluateInput_of_empty` and `content_of_no_file` are the inputs without anything to evaluate.
* `output_receives_results` says what becomes of all files.
-/

namespace Polish

variable {options : Options} {path : String} {files made : FileTree} {fault : PathFault}

/-! ## Evaluations of a file -/

theorem evaluateInput_congr (options : Options) (same : made.target path = files.target path) :
    evaluateInput options path made = evaluateInput options path files := by
  rw [evaluateInput, evaluateInput, FileTree.read, FileTree.read, same]

theorem evaluateInput_of_empty (options : Options) (found : files.target path = .ok (.file [])) :
    (evaluateInput options path files).result = .ok 0 ∧
      (evaluateInput options path files).sink.content = #[] := by
  have none : (Run.ofSource options.table .linewise [.data []]).values = delivery [] none :=
    Run.values_of_end (OperatorTable.nextValue_of_atEnd ⟨_, rfl, rfl⟩)
  obtain ⟨result, content, _⟩ := Run.report_of_free none Sink.free_empty
  rw [evaluateInput_of_node found options]
  exact ⟨congrArg (Except.mapError _) result, Array.toList_inj.1 content⟩

/-- Nothing is written where there is no file to read. -/
theorem content_of_no_file (options : Options) (noFile : ∀ content, files.target path ≠ .ok (.file content)) :
    (evaluateInput options path files).sink.content = #[] := by
  cases found : files.target path with
  | error fault => rw [evaluateInput_of_fault found options]
  | ok node =>
    cases node with
    | file content => exact absurd found (noFile content)
    | directory =>
      have failed : (Run.ofSource options.table .linewise Node.directory.source).values =
          delivery [] (some (.io PathFault.isDirectory.message)) :=
        Run.values_of_failure (nextValue_of_failed_read rfl)
      rw [evaluateInput_of_node found options]
      exact Array.toList_inj.1 (Run.report_of_free failed Sink.free_empty).2.1

theorem Written.toOutcome_congr (written : Written) (files made : FileTree) :
    (written.toOutcome made).status = (written.toOutcome files).status ∧
      (written.toOutcome made).stderr = (written.toOutcome files).stderr := by
  rw [toOutcome, toOutcome]
  split <;> exact ⟨rfl, rfl⟩

/-! ## The program -/

theorem openFailure_line (path : String) (fault : PathFault) :
    failureLine (openFailure path fault) = "error: " ++ path ++ ": " ++ fault.message ++ "\n" := by
  simp only [failureLine, openFailure, Failure.render, String.append_assoc]

theorem stderr_of_fault (path : String) (fault : PathFault) (files : FileTree) :
    ((⟨.error (openFailure path fault), {}⟩ : Written).toOutcome files).stderr =
      "error: " ++ path ++ ": " ++ fault.message ++ "\n" := by
  rw [Written.toOutcome_of_error rfl]
  exact openFailure_line path fault

/-- What is left when an output file was made: what the evaluation gives, written to that file. -/
theorem execute_of_created {arguments : List String} {input output : String} {location : Location}
    (invoked : Invocation.ofArguments arguments = .evaluate options) (input_eq : options.input = some input)
    (output_eq : options.output = some output) (created : files.create output = .ok (location, made))
    (stdin : List UInt8) :
    let written := evaluateInput options input made
    let outcome := execute arguments stdin files
    outcome.stdout = #[] ∧ outcome.status = (written.toOutcome files).status ∧
      outcome.stderr = (written.toOutcome files).stderr ∧
      files.Sets location written.sink.content.toList outcome.files ∧
      outcome.files.target output = .ok (.file written.sink.content.toList) := by
  intro written outcome
  obtain ⟨resolved, noDirectory, _⟩ := FileTree.create_eq_ok created
  have sets := (FileTree.sets_of_create created).put (FileTree.rooted_of_resolve resolved) noDirectory
    written.sink.content.toList
  have whole : outcome = { written.toOutcome (made.put location written.sink.content.toList) with
      stdout := #[] } := by
    simp only [outcome, execute, invoked]
    exact evaluateOptions_of_created input_eq output_eq created stdin
  have files_eq : outcome.files = made.put location written.sink.content.toList := by
    rw [whole]
    exact written.files_toOutcome _
  obtain ⟨status, stderr⟩ := written.toOutcome_congr files (made.put location written.sink.content.toList)
  refine ⟨by rw [whole], by rw [whole]; exact status, by rw [whole]; exact stderr, ?_, ?_⟩
  · rw [files_eq]
    exact sets
  · rw [files_eq]
    exact sets.target_of_resolve noDirectory resolved

/-- A file for the results is all that a run with one changes.
    * Where the input is another file than the output, and the output can be made, the run prints
      nothing, ends as it does without the output, and leaves in the output what it prints without:
      nothing if there is no file to read.  Every other node stays as it was.  The errors are the same,
      too, but for an input path that goes on behind the output, as if it was a directory, where the
      output is new: then the output is in the way.
    * Where both are one file it is read as an empty one, and stays empty.
    * Where the output cannot be made, that is the error whatever the input is, and nothing changes.
    * No other run changes a file. -/
theorem output_receives_results {arguments alone_arguments : List String} {options : Options}
    {input output : String} (invoked : Invocation.ofArguments arguments = .evaluate options)
    (input_eq : options.input = some input) (output_eq : options.output = some output)
    (alone_invoked : Invocation.ofArguments alone_arguments = .evaluate { options with output := none })
    (stdin : List UInt8) (files : FileTree) :
    let outcome := execute arguments stdin files
    let alone := execute alone_arguments stdin files
    (∀ location made, files.create output = .ok (location, made) →
      files.resolve output = .ok location ∧ outcome.stdout = #[] ∧
      (files.resolve input ≠ .ok location →
        outcome.status = alone.status ∧
        (¬ (files.LeadsThrough input location ∧ files.node? location = none) →
          outcome.stderr = alone.stderr) ∧
        (files.LeadsThrough input location ∧ files.node? location = none →
          alone.stderr = "error: " ++ input ++ ": " ++ "No such file or directory (os error 2)" ++ "\n" ∧
          outcome.stderr = "error: " ++ input ++ ": " ++ "Not a directory (os error 20)" ++ "\n") ∧
        outcome.files.target output = .ok (.file alone.stdout.toList) ∧
        files.Sets location alone.stdout.toList outcome.files ∧
        ((∀ content, files.target input ≠ .ok (.file content)) → alone.stdout = #[])) ∧
      (files.resolve input = .ok location →
        outcome.status = 0 ∧ outcome.stderr = "" ∧
        outcome.files.target output = .ok (.file []) ∧ files.Sets location [] outcome.files)) ∧
    (∀ fault, files.create output = .error fault →
      outcome = ⟨1, #[], "error: " ++ output ++ ": " ++ fault.message ++ "\n", files⟩) ∧
    ∀ others : List String,
      (∀ options, Invocation.ofArguments others = .evaluate options → options.output = none) →
      (execute others stdin files).files = files := by
  intro outcome alone
  have alone_eq : alone = (evaluateInput options input files).toOutcome files := by
    simp only [alone, execute, alone_invoked]
    exact @evaluateOptions_of_input { options with output := none } input input_eq rfl stdin files
  refine ⟨fun location made created => ?_, fun fault failed => ?_, fun others noOutput => ?_⟩
  · obtain ⟨resolved, noDirectory, _⟩ := FileTree.create_eq_ok created
    have sets := FileTree.sets_of_create created
    obtain ⟨stdout, status, stderr, written, target⟩ :=
      execute_of_created invoked input_eq output_eq created stdin
    refine ⟨resolved, stdout, fun differs => ?_, fun same => ?_⟩
    · rw [alone_eq, Written.stdout_toOutcome]
      by_cases through : files.LeadsThrough input location ∧ files.node? location = none
      · -- both cannot open the input, and say so in other words
        obtain ⟨after, before, _⟩ := sets.resolve_of_leadsThrough noDirectory through.1
        rw [evaluateInput_of_fault (FileTree.target_of_error after) options] at status stderr written target
        rw [evaluateInput_of_fault (FileTree.target_of_error (before through.2)) options]
        refine ⟨status, fun stays => absurd through stays, fun _ => ⟨?_, ?_⟩, target, written, fun _ => rfl⟩
        · exact stderr_of_fault input .missing files
        · exact stderr.trans (stderr_of_fault input .notDirectory files)
      · have same := sets.target_eq (sets.resolve_eq noDirectory through) differs
        rw [evaluateInput_congr options same] at status stderr written target
        exact ⟨status, fun _ => stderr, fun corner => absurd corner through, target, written,
          content_of_no_file options⟩
    · obtain ⟨result, content⟩ :=
        evaluateInput_of_empty options (sets.target_of_resolve noDirectory same)
      rw [content] at written target
      rw [Written.toOutcome_of_ok result] at status stderr
      exact ⟨status, stderr, target, written⟩
  · simp only [outcome, execute, invoked]
    rw [evaluateOptions_of_fault input_eq output_eq failed, openFailure_line]
  · rw [execute]
    split
    · next options evaluated =>
      have none := noOutput options evaluated
      cases path : options.input with
      | none => rw [evaluateOptions_of_no_input path, Written.files_toOutcome]
      | some path_ => rw [evaluateOptions_of_input path none, Written.files_toOutcome]
    all_goals rfl

/-- The second line fails, and the output held something before. -/
theorem output_receives_results_of_failed_run :
    let files : FileTree := ⟨[(["in"], .file (Text.encode "7\nx".toList)), (["out"], .file [0])]⟩
    let outcome := execute ["in", "out"] [] files
    let alone := execute ["in"] [] files
    Invocation.ofArguments ["in", "out"] = .evaluate { input := some "in", output := some "out" } ∧
      Invocation.ofArguments ["in"] = .evaluate { input := some "in", output := none } ∧
      (∃ made, files.create "out" = .ok (["out"], made)) ∧ files.resolve "in" = .ok ["in"] ∧
      files.node? ["out"] = some (.file [0]) ∧
      outcome.stdout = #[] ∧ outcome.status = alone.status ∧ outcome.stderr = alone.stderr ∧
      outcome.files.target "out" = .ok (.file alone.stdout.toList) ∧
      outcome.files.node? ["in"] = files.node? ["in"] := by
  intro files outcome alone
  have invoked : Invocation.ofArguments ["in", "out"] =
      .evaluate { input := some "in", output := some "out" } := by decide
  have alone_invoked : Invocation.ofArguments ["in"] =
      .evaluate { input := some "in", output := none } := by decide
  have created : files.create "out" = .ok (["out"], files.put ["out"] []) := by decide
  have resolved : files.resolve "in" = .ok ["in"] := by decide
  have held : files.node? ["out"] = some (.file [0]) := by decide
  obtain ⟨made, _⟩ := output_receives_results invoked rfl rfl alone_invoked [] files
  obtain ⟨_, stdout, apart, _⟩ := made _ _ created
  have other : ["in"] ≠ ["out"] := by decide
  have differs : files.resolve "in" ≠ .ok ["out"] := by
    rw [resolved]
    exact fun same => other (Except.ok.inj same)
  obtain ⟨status, stderr, _, target, sets, _⟩ := apart differs
  refine ⟨invoked, alone_invoked, ⟨_, created⟩, resolved, held, stdout, status, stderr ?_, target,
    sets.elsewhere _ other⟩
  rintro ⟨_, nothing⟩
  rw [held] at nothing
  cases nothing

/-- The output is made before the input is looked for, and a path through it then meets a file. -/
theorem output_stands_in_way :
    let files : FileTree := ⟨[]⟩
    Invocation.ofArguments ["out/x", "out"] = .evaluate { input := some "out/x", output := some "out" } ∧
      Invocation.ofArguments ["out/x"] = .evaluate { input := some "out/x", output := none } ∧
      files.create "out" = .ok (["out"], ⟨[(["out"], .file [])]⟩) ∧
      files.resolve "out/x" ≠ .ok ["out"] ∧
      (execute ["out/x"] [] files).stderr =
        "error: out/x: No such file or directory (os error 2)\n" ∧
      (execute ["out/x", "out"] [] files).stderr = "error: out/x: Not a directory (os error 20)\n" ∧
      (execute ["out/x", "out"] [] files).stderr ≠ (execute ["out/x"] [] files).stderr := by
  decide

end Polish
