import Polish.Evaluation

/-! # Runs

A run gives the values of the expressions of a source, one after the other, and ends for good at the
end of the source or after the first failure.

* `Run.next?` asks for one value; lines are read only as far as it needs them.
* `Run.values` is the list of all that a run gives.
* `size_next?_lt` says that everything a run gives uses up a part of its source.
-/

namespace Polish

namespace TokenStream

/-- Checks that the expression on a line is followed by the end of the line, where lines count. -/
def closeLine (s : TokenStream) : Except Failure Unit × TokenStream :=
  match s.layout with
  | .freeform => (.ok (), s)
  | .linewise =>
    match s.next with
    | (.error failure, s) => (.error failure, s)
    | (.ok token, s) =>
      match token.kind with
      | .ending _ => (.ok (), s)
      | _ => (.error (.malformed (s.diagnose (.secondExpression token.lexeme) token.place)), s)

theorem size_closeLine_le {s s' : TokenStream} {r : Except Failure Unit}
    (h : s.closeLine = (r, s')) : s'.size ≤ s.size := by
  rw [closeLine] at h
  split at h
  · cases h
    exact Nat.le_refl _
  · split at h
    · next taken =>
      cases h
      exact size_next_le taken
    · next taken =>
      split at h <;> cases h <;> exact size_next_le taken

end TokenStream

namespace OperatorTable

def nextValue (table : OperatorTable) (s : TokenStream) :
    Except Failure (Option Float) × TokenStream :=
  match s.peek with
  | (.error failure, s) => (.error failure, s)
  | (.ok token, s) =>
    if token.isLast then (.ok none, s)
    else
      match table.expression s with
      | (.error failure, s) => (.error failure, s)
      | (.ok v, s) =>
        match s.closeLine with
        | (.error failure, s) => (.error failure, s)
        | (.ok (), s) => (.ok (some v), s)

theorem size_nextValue_lt {table : OperatorTable} {s s' : TokenStream} {v : Float}
    (h : table.nextValue s = (.ok (some v), s')) : s'.size < s.size := by
  rw [nextValue] at h
  split at h
  · cases h
  · next looked =>
    split at h
    · cases h
    · split at h
      · cases h
      · next evaluated =>
        split at h
        · cases h
        · next closed =>
          cases h
          -- neither the look ahead nor the close makes the stream larger, and the value costs a token
          exact Nat.lt_of_le_of_lt (TokenStream.size_closeLine_le closed)
            (Nat.lt_of_lt_of_le (size_expression_lt evaluated) (TokenStream.size_peek_le looked))

end OperatorTable

structure Run where
  table : OperatorTable
  stream : TokenStream
  finished : Bool := false

namespace Run

def ofSource (table : OperatorTable) (layout : Layout) (source : Source) : Run where
  table := table
  stream := .ofSource layout source

/-- The next value, or the failure that ends the run; `none` after that and at the end of the
    input. -/
def next? (run : Run) : Option (Except Failure Float) × Run :=
  if run.finished then (none, run)
  else
    match run.table.nextValue run.stream with
    | (.ok (some v), s) => (some (.ok v), { run with stream := s })
    | (.ok none, s) => (none, { run with stream := s, finished := true })
    | (.error failure, s) => (some (.error failure), { run with stream := s, finished := true })

/-- A bound on what a run can still give. -/
def size (run : Run) : Nat :=
  if run.finished then 0 else run.stream.size + 1

theorem size_next?_lt {run run' : Run} {r : Except Failure Float}
    (h : run.next? = (some r, run')) : run'.size < run.size := by
  rw [next?] at h
  split at h
  · cases h
  · next unfinished =>
    split at h
    · next evaluated =>
      cases h
      simp only [size, unfinished]
      exact Nat.add_lt_add_right (OperatorTable.size_nextValue_lt evaluated) 1
    · cases h
    · cases h
      simp [size, unfinished]

def values (run : Run) : List (Except Failure Float) :=
  match _h : run.next? with
  | (none, _) => []
  | (some result, run) => result :: run.values
termination_by run.size
decreasing_by exact size_next?_lt _h

end Run

end Polish
