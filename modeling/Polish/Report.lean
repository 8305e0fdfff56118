import Polish.Run

/-! # Reports

The values of a run written to a sink, one on each line.

* A `Sink` keeps what is written to it, and may be limited: beyond its capacity it takes what fits
  and fails.
* `Run.report` writes the values of a run until a value or a write fails, and flushes the sink when
  the run ends without a failure.
-/

namespace Polish

structure Sink where
  content : Array UInt8 := #[]
  capacity : Option Nat := none
  flushFails : Bool := false
  flushes : Nat := 0
  deriving DecidableEq, Repr

namespace Sink

def fitting (sink : Sink) (bytes : List UInt8) : Nat :=
  match sink.capacity with
  | none => bytes.length
  | some capacity => min bytes.length (capacity - sink.content.size)

/-- Takes as many of `bytes` as there is room for, and fails if some are left. -/
def write (sink : Sink) (bytes : List UInt8) : Except String Unit × Sink :=
  let taken := sink.fitting bytes
  (if taken = bytes.length then .ok () else .error "sink full",
    { sink with content := sink.content ++ bytes.take taken })

def flush (sink : Sink) : Except String Unit × Sink :=
  (if sink.flushFails then .error "flush failed" else .ok (),
    { sink with flushes := sink.flushes + 1 })

end Sink

def valueLine (v : Float) : List Char :=
  Number.write v ++ ['\n']

structure Report where
  result : Except Failure Nat
  sink : Sink
  run : Run

namespace Run

def reportFrom (run : Run) (sink : Sink) (count : Nat) : Report :=
  match _h : run.next? with
  | (none, run) =>
    match sink.flush with
    | (.ok (), sink) => ⟨.ok count, sink, run⟩
    | (.error message, sink) => ⟨.error (.io message), sink, run⟩
  | (some (.error failure), run) => ⟨.error failure, sink, run⟩
  | (some (.ok v), run) =>
    match sink.write (Text.encode (valueLine v)) with
    | (.ok (), sink) => run.reportFrom sink (count + 1)
    | (.error message, sink) => ⟨.error (.io message), sink, run⟩
termination_by run.size
decreasing_by exact size_next?_lt _h

def report (run : Run) (sink : Sink) : Report :=
  run.reportFrom sink 0

end Run

end Polish
