import Polish.CommandLine

/-! # The program `polish`

The outer layer: it opens the files that the arguments name, hands their bytes to the library and
writes what comes back.
-/

namespace Polish

def faultMessage : IO.Error → String
  | .noFileOrDirectory .. => PathFault.missing.message
  | .inappropriateType _ 21 _ => PathFault.isDirectory.message
  | .inappropriateType .. => PathFault.notDirectory.message
  | .invalidArgument _ 36 _ => PathFault.nameTooLong.message
  | other => toString other

def complain (failure : Failure) : IO UInt32 := do
  (← IO.getStderr).putStr (failureLine failure)
  return 1

def withPath {α : Type} (path : String) (action : IO α) : IO (Except Failure α) := do
  try
    return .ok (← action)
  catch error =>
    return .error (.io (path ++ ": " ++ faultMessage error))

partial def readSource (input : IO.FS.Handle) (taken : Source) : IO Source := do
  try
    let bytes ← input.read 65536
    if bytes.isEmpty then return taken.reverse
    readSource input (.data bytes.toList :: taken)
  catch error =>
    return (Event.failure (faultMessage error) :: taken).reverse

/-- The bytes of the next line with its line feed, when `taken` are its bytes so far, last one first.
    They are taken one by one, so that a line is at hand as soon as it is complete. -/
partial def readLine (input : IO.FS.Stream) (taken : List UInt8) : IO (List UInt8) := do
  match (← input.read 1).toList with
  | [] => return taken.reverse
  | b :: _ => if b = Source.lineFeed then return (b :: taken).reverse else readLine input (b :: taken)

partial def readLines (options : Options) (number : Nat) : IO UInt32 := do
  let output ← IO.getStdout
  let bytes ← readLine (← IO.getStdin) []
  if bytes.isEmpty then return 0
  match (Read.ofBytes bytes).outcome with
  | .error message => complain (.io message)
  | .ok line =>
    let written := evaluateLine options.table number line {}
    output.write ⟨written.sink.content⟩
    output.flush
    match written.result with
    | .ok _ => readLines options (number + 1)
    | .error failure => complain failure

def runFile (options : Options) (path : String) (write : ByteArray → IO Unit) : IO UInt32 := do
  match ← withPath path (IO.FS.Handle.mk path .read) with
  | .error failure => complain failure
  | .ok input =>
    let written := evaluateFile options.table path (← readSource input []) {}
    write ⟨written.sink.content⟩
    match written.result with
    | .ok _ => return 0
    | .error failure => complain failure

def runOptions (options : Options) : IO UInt32 := do
  match options.input, options.output with
  | none, _ => readLines options 1
  | some input, none => runFile options input fun bytes => do (← IO.getStdout).write bytes
  | some input, some output =>
    match ← withPath output (IO.FS.Handle.mk output .write) with
    | .error failure => complain failure
    | .ok file => runFile options input file.write

end Polish

def main (arguments : List String) : IO UInt32 := do
  match Polish.Invocation.ofArguments arguments with
  | .evaluate options => Polish.runOptions options
  | .help => do
    IO.print Polish.helpText
    return 0
  | .version => do
    IO.print Polish.versionText
    return 0
  | .misuse reason => do
    IO.eprint ("error: " ++ reason ++ "\n" ++ Polish.usage)
    return 2
