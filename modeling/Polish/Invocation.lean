/-! # Invocations

`polish [-x] [INPUT [OUTPUT]]`: how the program is called, and what its arguments ask for.

* `Invocation.ofArguments` reads the arguments one after the other.  Options may stand anywhere
  before `--`; the first argument that is no good decides.
* A dash alone is a path, and an option that is given twice is a mistake.
-/

namespace Polish

structure Options where
  extended : Bool := false
  input : Option String := none
  output : Option String := none
  deriving DecidableEq, Repr

inductive Invocation where
  | evaluate (options : Options)
  | help
  | version
  | misuse (reason : String)
  deriving DecidableEq, Repr

namespace Invocation

def andThen (step : Except Invocation Options) (rest : Options → Invocation) : Invocation :=
  match step with
  | .ok options => rest options
  | .error invocation => invocation

def extend (options : Options) : Except Invocation Options :=
  if options.extended then .error (.misuse "the option --extended is given twice")
  else .ok { options with extended := true }

def takePath (options : Options) (path : String) : Except Invocation Options :=
  if path = "" then .error (.misuse "a path is empty")
  else if options.input = none then .ok { options with input := path }
  else if options.output = none then .ok { options with output := path }
  else .error (.misuse ("unexpected argument " ++ path))

def takeLetters (options : Options) : List Char → Except Invocation Options
  | [] => .ok options
  | 'x' :: rest =>
    match extend options with
    | .ok options => takeLetters options rest
    | .error invocation => .error invocation
  | 'h' :: _ => .error .help
  | 'V' :: _ => .error .version
  | c :: _ => .error (.misuse ("unknown option -" ++ String.singleton c))

def takeArgument (options : Options) (argument : String) : Except Invocation Options :=
  match argument.toList with
  | ['-'] => takePath options argument
  | '-' :: '-' :: _ =>
    if argument = "--extended" then extend options
    else if argument = "--help" then .error .help
    else if argument = "--version" then .error .version
    else .error (.misuse ("unknown option " ++ argument))
  | '-' :: letters => takeLetters options letters
  | _ => takePath options argument

def ofPaths (options : Options) : List String → Invocation
  | [] => .evaluate options
  | path :: rest => andThen (takePath options path) (ofPaths · rest)

/-- Takes arguments one after the other; the first one that is no good decides. -/
def ofArgumentsFrom (options : Options) : List String → Invocation
  | [] => .evaluate options
  | argument :: rest =>
    if argument = "--" then ofPaths options rest
    else andThen (takeArgument options argument) (ofArgumentsFrom · rest)

def ofArguments (arguments : List String) : Invocation :=
  ofArgumentsFrom {} arguments

end Invocation

def usage : String := "usage: polish [-x] [INPUT [OUTPUT]]\n"

def helpText : String :=
  "Evaluate arithmetic expressions in Polish notation.\n\n" ++ usage ++
  "\nWithout INPUT, each line of standard input is evaluated as soon as it is read.\n\n" ++
  "  INPUT           file with one expression on each line\n" ++
  "  OUTPUT          file for the results, instead of standard output\n" ++
  "  -x, --extended  know the operators neg, abs, sqrt, ^, %, min, max, pi and e, too\n" ++
  "  -h, --help      print this text\n" ++
  "  -V, --version   print the version\n"

def versionText : String := "polish 0.1.0\n"

end Polish
