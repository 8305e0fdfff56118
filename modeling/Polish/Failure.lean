import Polish.Diagnostic
import Polish.Operator

/-! # Failures

Everything that can end an evaluation.
-/

namespace Polish

/-- Why an evaluation ended before its input did. -/
inductive Failure where
  | malformed (diagnostic : Diagnostic)
  | io (message : String)
  | mismatch (mismatch : ArityMismatch)
  deriving DecidableEq, Repr

def Failure.render : Failure → String
  | malformed diagnostic => "syntax error: " ++ diagnostic.render
  | io message => message
  | mismatch m => m.message

def Failure.mapDiagnostic (f : Diagnostic → Diagnostic) : Failure → Failure
  | malformed diagnostic => malformed (f diagnostic)
  | other => other

end Polish
