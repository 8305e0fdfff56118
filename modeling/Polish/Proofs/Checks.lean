import Polish.Proofs.Queue
import Polish.Report

/-! # The program with checks

Some of what the program does has a meaning for certain arguments only.  A line can be cut at a
position, and at no other offset; a part of a line ends behind its start; an operator takes as many
operands as it has.  Here the program is written down once more, and looks at its arguments before it
does one of these things.

* `Breach` is what it can find there.  A `Checked` computation stops at the first breach.
* `Text.cut`, `Text.cutBetween` and `Operator.applyChecked` are what is checked.  Besides, whenever a line
  is taken up or a stream goes on to another offset, the offset has to be a position: `inPosition`.
* `TokenStream.nextChecked`, `OperatorTable.expressionChecked`, `Run.valuesChecked` and
  `Run.reportChecked` are the program built on these.  How deep its calls go and how long its loops go on
  is checked as well, against the size of the stream.
* `TokenStream.callAllChecked` makes any `Call`s of a stream, one after the other.
-/

namespace Polish

/-- What was asked for has no meaning. -/
inductive Breach where
  /-- The line was to be cut past its end, or inside a character. -/
  | position (line : List Char) (offset : Nat)
  /-- The part of a line was to end before its start. -/
  | range (start stop : Nat)
  | operands (mismatch : ArityMismatch)
  /-- Calls were to go deeper, or a loop to go on longer, than was foreseen. -/
  | unforeseen
  deriving DecidableEq, Repr

abbrev Checked := Except Breach

namespace Text

/-- What stands in front of the position, and what stands behind it. -/
def cut (line : List Char) (offset : Nat) : Checked (List Char × List Char) :=
  match foldTo? (fun passed c => c :: passed) [] line offset with
  | some (passed, behind) => return (passed.reverse, behind)
  | none => throw (.position line offset)

def cutBetween (line : List Char) (start stop : Nat) : Checked (List Char) := do
  if start ≤ stop then
    let (before, _) ← cut line start
    let (upTo, _) ← cut line stop
    return upTo.drop before.length
  else throw (.range start stop)

/-- The check lets positions pass and nothing else. -/
theorem cut_eq_pure_iff {line before behind : List Char} {offset : Nat} :
    cut line offset = pure (before, behind) ↔
      line = before ++ behind ∧ byteLength before = offset := by
  constructor
  · intro passes
    rw [cut] at passes
    split at passes
    · next passed rest folded =>
      obtain ⟨front, rfl, size⟩ := exists_of_foldTo? _ folded
      rw [← size, foldTo?_append] at folded
      cases folded
      cases passes
      simpa using size
    · cases passes
  · rintro ⟨rfl, rfl⟩
    simp [cut]

theorem cutBetween_append (before inside after : List Char) :
    cutBetween (before ++ (inside ++ after)) (byteLength before)
      (byteLength before + byteLength inside) = pure inside := by
  have start := cut_eq_pure_iff.2 ⟨(rfl : before ++ (inside ++ after) = _), rfl⟩
  have stop := cut_eq_pure_iff.2 ⟨List.append_assoc before inside after |>.symm, byteLength_append _ _⟩
  simp only [cutBetween, if_pos (Nat.le_add_right _ _), start, stop, pure_bind, List.drop_left]

/-- The character takes two bytes. -/
example : cut ['é'] 1 = throw (.position ['é'] 1) := rfl

end Text

/-! ## Token streams -/

namespace TokenStream

/-- The stream, if its offset is a position of the line held. -/
def inPosition (s : TokenStream) : Checked TokenStream := do
  let _ ← Text.cut s.text s.offset
  return s

def searchChecked (s : TokenStream) : Checked (Option (Nat × Lexeme)) := do
  let (_, rest) ← Text.cut s.text s.offset
  return (Lexeme.next? rest).map fun (blanks, lexeme) =>
    (s.offset + Text.byteLength blanks, lexeme)

def placeOfChecked (s : TokenStream) (start stop : Nat) : Checked Place := do
  let (before, _) ← Text.cut s.text start
  let inside ← Text.cutBetween s.text start stop
  return ⟨s.line, before.length, before.length + inside.length⟩

def onLineChecked? (s : TokenStream) : Checked (Option (Except Failure Token × TokenStream)) := do
  match ← s.searchChecked with
  | some (start, lexeme) =>
    let stop := start + lexeme.size
    let s' ← inPosition { s with offset := stop }
    let place ← s'.placeOfChecked start stop
    return some (s'.answer place lexeme, s')
  | none =>
    return if s.owesEnd then some (.ok (s.ending .endOfLine), { s with owesEnd := false }) else none

def scanFromChecked (s : TokenStream) :
    (unread : List Read) → Checked (Except Failure Token × TokenStream)
  | [] => do
    match ← s.onLineChecked? with
    | some result => return result
    | none => return (.ok (s.ending .endOfInput), { s with finished := true })
  | read :: unread => do
    match ← s.onLineChecked? with
    | some result => return result
    | none =>
      match read.outcome with
      | .error message => return (.error (.io message), s.advance read.size unread)
      | .ok text =>
        let s' ← inPosition ((s.advance read.size unread).hold text)
        s'.scanFromChecked unread

def scanChecked (s : TokenStream) : Checked (Except Failure Token × TokenStream) :=
  if s.finished then return (.ok (s.ending .endOfInput), s) else s.scanFromChecked s.unread

def nextChecked (s : TokenStream) : Checked (Except Failure Token × TokenStream) :=
  match s.lookahead with
  | some token => return (.ok token, s.skip)
  | none => s.scanChecked

def peekChecked (s : TokenStream) : Checked (Except Failure Token × TokenStream) :=
  match s.lookahead with
  | some token => return (.ok token, s)
  | none => do
    match ← s.scanChecked with
    | (.ok token, s) => return (.ok token, { s with lookahead := some token })
    | (.error failure, s) => return (.error failure, s)

def nextChecked? (s : TokenStream) : Checked (Answer × TokenStream) := do
  match ← s.nextChecked with
  | (.ok token, s) => return if token.isLast then (none, s) else (some (.ok token), s)
  | (.error failure, s) => return (some (.error failure), s)

end TokenStream

/-! ## Expressions -/

def Operator.applyChecked (op : Operator) (operands : Array Float) : Checked Float :=
  match op.apply operands with
  | .ok v => return v
  | .error mismatch => throw (.operands mismatch)

/-- The operands that `op` still takes, when `evaluate` is the evaluation of one operand. -/
def Operator.operandsChecked (op : Operator)
    (evaluate : TokenStream → Checked (Except Failure Float × TokenStream)) (symbol : String)
    (operands : Array Float) (s : TokenStream) :
    Checked (Except Failure (Array Float) × TokenStream) := do
  if _waits : operands.size < op.arity then
    match ← s.peekChecked with
    | (.error failure, s) => return (.error failure, s)
    | (.ok token, s) =>
      match token.kind with
      | .ending reached =>
        return (.error (.malformed (s.diagnose
          (.missingOperand symbol op.arity operands.size reached) token.place)), s)
      | _ =>
        match ← evaluate s with
        | (.error failure, s) => return (.error failure, s)
        | (.ok v, s) => op.operandsChecked evaluate symbol (operands.push v) s
  else return (.ok operands, s)
termination_by op.arity - operands.size
decreasing_by
  rw [Array.size_push]
  omega

namespace OperatorTable

/-- One expression, by at most `depth` calls inside one another. -/
def expressionWithin (table : OperatorTable) :
    (depth : Nat) → TokenStream → Checked (Except Failure Float × TokenStream)
  | 0, _ => throw .unforeseen
  | depth + 1, s => do
    match ← s.nextChecked with
    | (.error failure, s) => return (.error failure, s)
    | (.ok token, s) =>
      match token.kind with
      | .number v => return (.ok v, s)
      | .ending reached =>
        return (.error (.malformed (s.diagnose (.missingExpression reached) token.place)), s)
      | .word =>
        match table.find? token.lexeme with
        | none =>
          return (.error (.malformed (s.diagnose (.unknownOperator token.lexeme) token.place)), s)
        | some op =>
          match ← op.operandsChecked (table.expressionWithin depth) token.lexeme #[] s with
          | (.error failure, s) => return (.error failure, s)
          | (.ok operands, s) => return (.ok (← op.applyChecked operands), s)

def expressionChecked (table : OperatorTable) (s : TokenStream) :
    Checked (Except Failure Float × TokenStream) :=
  table.expressionWithin (s.size + 1) s

end OperatorTable

/-! ## Runs and reports -/

def TokenStream.closeLineChecked (s : TokenStream) : Checked (Except Failure Unit × TokenStream) :=
  match s.layout with
  | .freeform => return (.ok (), s)
  | .linewise => do
    match ← s.nextChecked with
    | (.error failure, s) => return (.error failure, s)
    | (.ok token, s) =>
      match token.kind with
      | .ending _ => return (.ok (), s)
      | _ =>
        return (.error (.malformed (s.diagnose (.secondExpression token.lexeme) token.place)), s)

def OperatorTable.nextValueChecked (table : OperatorTable) (s : TokenStream) :
    Checked (Except Failure (Option Float) × TokenStream) := do
  match ← s.peekChecked with
  | (.error failure, s) => return (.error failure, s)
  | (.ok token, s) =>
    if token.isLast then return (.ok none, s)
    else
      match ← table.expressionChecked s with
      | (.error failure, s) => return (.error failure, s)
      | (.ok v, s) =>
        match ← s.closeLineChecked with
        | (.error failure, s) => return (.error failure, s)
        | (.ok (), s) => return (.ok (some v), s)

namespace Run

def nextChecked? (run : Run) : Checked (Option (Except Failure Float) × Run) := do
  if run.finished then return (none, run)
  else
    match ← run.table.nextValueChecked run.stream with
    | (.ok (some v), s) => return (some (.ok v), { run with stream := s })
    | (.ok none, s) => return (none, { run with stream := s, finished := true })
    | (.error failure, s) =>
      return (some (.error failure), { run with stream := s, finished := true })

def valuesWithin : (rounds : Nat) → Run → Checked (List (Except Failure Float))
  | 0, _ => throw .unforeseen
  | rounds + 1, run => do
    match ← run.nextChecked? with
    | (none, _) => return []
    | (some result, run) => return result :: (← valuesWithin rounds run)

def valuesChecked (run : Run) : Checked (List (Except Failure Float)) :=
  valuesWithin (run.size + 1) run

def reportWithin : (rounds : Nat) → Run → Sink → (count : Nat) → Checked Report
  | 0, _, _, _ => throw .unforeseen
  | rounds + 1, run, sink, count => do
    match ← run.nextChecked? with
    | (none, run) =>
      match sink.flush with
      | (.ok (), sink) => return ⟨.ok count, sink, run⟩
      | (.error message, sink) => return ⟨.error (.io message), sink, run⟩
    | (some (.error failure), run) => return ⟨.error failure, sink, run⟩
    | (some (.ok v), run) =>
      match sink.write (Text.encode (valueLine v)) with
      | (.ok (), sink) => reportWithin rounds run sink (count + 1)
      | (.error message, sink) => return ⟨.error (.io message), sink, run⟩

def reportChecked (run : Run) (sink : Sink) : Checked Report :=
  reportWithin (run.size + 1) run sink 0

end Run

/-! ## Calls -/

/-- Whatever a stream may be used for. -/
inductive Call where
  | request (request : Request)
  | diagnose (token : Token) (message : String)
  | evaluate (table : OperatorTable)

inductive Response where
  | answer (answer : Answer)
  | diagnostic (diagnostic : Diagnostic)
  | value (result : Except Failure Float)

namespace TokenStream

def respondChecked (s : TokenStream) : Request → Checked (Answer × TokenStream)
  | .take => do
    let (item, s) ← s.nextChecked
    return (some item, s)
  | .look => do
    let (item, s) ← s.peekChecked
    return (some item, s)
  | .takeUnlessLast => s.nextChecked?

def call (s : TokenStream) : Call → Response × TokenStream
  | .request request => (.answer (s.respond request).1, (s.respond request).2)
  | .diagnose token message => (.diagnostic (s.diagnose (.other message) token.place), s)
  | .evaluate table => (.value (table.expression s).1, (table.expression s).2)

def callChecked (s : TokenStream) : Call → Checked (Response × TokenStream)
  | .request request => do
    let (answer, s) ← s.respondChecked request
    return (.answer answer, s)
  | .diagnose token message => return (.diagnostic (s.diagnose (.other message) token.place), s)
  | .evaluate table => do
    let (result, s) ← table.expressionChecked s
    return (.value result, s)

def callAll (s : TokenStream) : List Call → List Response × TokenStream
  | [] => ([], s)
  | call :: calls =>
    let (response, s) := s.call call
    let (responses, s) := s.callAll calls
    (response :: responses, s)

def callAllChecked (s : TokenStream) : List Call → Checked (List Response × TokenStream)
  | [] => return ([], s)
  | call :: calls => do
    let (response, s) ← s.callChecked call
    let (responses, s) ← s.callAllChecked calls
    return (response :: responses, s)

end TokenStream

end Polish
