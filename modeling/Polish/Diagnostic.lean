import Polish.Cause
import Polish.Text.Blank

/-! # Diagnostics

A `Diagnostic` is a cause with whatever is known about the place: the file, the line, the columns and
the text of the line.  `Diagnostic.render` is its text.  With a place and the text of the line it has
five rows: message, file and position, an empty row, the line, and carets under the offending
columns.
-/

namespace Polish

/-- A range of columns on a line.  Lines count from one, columns from zero and in characters; the
    range ends before `stop`. -/
structure Place where
  line : Nat
  start : Nat
  stop : Nat
  deriving DecidableEq, Repr

def Place.width (p : Place) : Nat :=
  p.stop - p.start

structure Diagnostic where
  cause : Cause
  note : Option String := none
  file : Option String := none
  code : Option String := none
  place : Option Place := none
  deriving DecidableEq, Repr

namespace Diagnostic

def located (cause : Cause) (place : Place) (code : String) : Diagnostic where
  cause := cause
  note := cause.note?
  code := code
  place := place

/-! ## Settings

Each setting replaces an earlier one of its kind. -/

def withNote (d : Diagnostic) (note : String) : Diagnostic :=
  { d with note := note }

def withFile (d : Diagnostic) (file : String) : Diagnostic :=
  { d with file := file }

def withCode (d : Diagnostic) (code : String) : Diagnostic :=
  { d with code := code }

def withPlace (d : Diagnostic) (place : Place) : Diagnostic :=
  { d with place := place }

/-- Gives the line another number; a diagnostic without a place has no line to number. -/
def renumber (d : Diagnostic) (line : Nat) : Diagnostic :=
  { d with place := d.place.map fun p => { p with line := line } }

/-! ## Text -/

def unnamed : String := "<input>"

def repeated (n : Nat) (c : Char) : String :=
  String.ofList (List.replicate n c)

def position (d : Diagnostic) (p : Place) : String :=
  d.file.getD unnamed ++ ":" ++ toString p.line ++ ":" ++ toString (p.start + 1)

/-- The rows that show `code` with carets under the place `p`.  The number of the line stands in a
    margin, which the other rows leave blank.  An empty place is shown by a single caret. -/
def excerpt (d : Diagnostic) (p : Place) (code : String) : List String :=
  let number := toString p.line
  let margin := repeated number.length ' '
  let carets := repeated p.start ' ' ++ repeated (max 1 p.width) '^'
  let remark := match d.note with
    | some note => " " ++ note
    | none => ""
  [ " --> " ++ d.position p,
    margin ++ " |",
    number ++ " | " ++ String.ofList (Text.trimEnd code.toList),
    margin ++ " | " ++ carets ++ remark ]

/-- The text of a diagnostic: the message alone without a place, the message and the position without
    the text of the line, and else the message above the excerpt.  The note belongs to the excerpt. -/
def render (d : Diagnostic) : String :=
  match d.place, d.code with
  | none, _ => d.cause.message
  | some p, none => d.cause.message ++ " @ " ++ d.position p
  | some p, some code => "\n".intercalate (d.cause.message :: d.excerpt p code)

end Diagnostic

end Polish
