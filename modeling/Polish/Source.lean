import Polish.Text.Utf8

/-! # Sources and the reads taken from them

A source hands out bytes in pieces, and any of its reads may fail once.  It is read a line at a
time: up to and including a line feed, or to the end of the source.

* `Source.reads` is the list of all reads of a source, in order.  The cut of the bytes into pieces
  leaves no trace in it.
* A failure loses the bytes of the line that it interrupts; the next line starts behind it.
* A line that is not valid UTF-8 is lost as well, and is answered by a failure of its own.
-/

namespace Polish

inductive Event where
  | data (bytes : List UInt8)
  | failure (message : String)
  deriving DecidableEq, Repr

/-- All that a source will do before it is at its end. -/
abbrev Source := List Event

structure Read where
  size : Nat
  outcome : Except String (List Char)

def invalidText : String := "stream did not contain valid UTF-8"

def Read.ofBytes (bytes : List UInt8) : Read :=
  ⟨bytes.length, match Text.decode? bytes with
    | some line => .ok line
    | none => .error invalidText⟩

namespace Source

inductive Signal where
  | byte (b : UInt8)
  | failure (message : String)
  deriving DecidableEq, Repr

def signalsOf : Event → List Signal
  | .data bytes => bytes.map .byte
  | .failure message => [.failure message]

def signals (source : Source) : List Signal :=
  source.flatMap signalsOf

def lineFeed : UInt8 := 10

/-- The reads of the remaining signals, when the bytes `pending` of the line (last one first) have
    been taken already. -/
def readsFrom (pending : List UInt8) : List Signal → List Read
  | [] => if pending.isEmpty then [] else [.ofBytes pending.reverse]
  | .byte b :: rest =>
    if b = lineFeed then .ofBytes (b :: pending).reverse :: readsFrom [] rest
    else readsFrom (b :: pending) rest
  -- what was taken of the line is lost
  | .failure message :: rest => ⟨pending.length, .error message⟩ :: readsFrom [] rest

def reads (source : Source) : List Read :=
  readsFrom [] source.signals

def ofString (s : String) : Source :=
  [.data (Text.encode s.toList)]

end Source

end Polish
