import Polish.Text.Quoted

/-! # Causes

What can be wrong with an input that is not a sequence of expressions.  The wording of a `Cause` is
fixed by `Cause.message`, and by `Cause.note?` where there is something to add.
-/

namespace Polish

/-- What may stand in place of a lexeme. -/
inductive Terminator where
  | endOfLine
  | endOfInput
  deriving DecidableEq, Repr

def Terminator.name : Terminator → String
  | .endOfLine => "end of line"
  | .endOfInput => "end of input"

inductive Cause where
  | strayCharacter (c : Char)
  | unknownOperator (symbol : String)
  | missingExpression (reached : Terminator)
  | missingOperand (symbol : String) (arity found : Nat) (reached : Terminator)
  | secondExpression (lexeme : String)
  | other (message : String)
  deriving DecidableEq, Repr

namespace Cause

def message : Cause → String
  | strayCharacter c => "unexpected character " ++ Text.quote (String.singleton c)
  | unknownOperator symbol => "unknown operator `" ++ symbol ++ "`"
  | missingExpression reached => "expected an expression, found " ++ reached.name
  | missingOperand symbol arity found _ =>
    "operator `" ++ symbol ++ "` expects " ++ toString arity ++ " operands, found "
      ++ toString found
  | secondExpression lexeme =>
    "expected end of line after expression, found `" ++ lexeme ++ "`"
  | other message => message

/-- The remark set beside the carets. -/
def note? : Cause → Option String
  | missingOperand _ _ _ reached => some ("reached " ++ reached.name)
  | secondExpression _ => some "each line holds exactly one expression"
  | _ => none

end Cause

end Polish
