import Polish.Failure
import Polish.Lexeme
import Polish.Source
import Polish.Token

/-! # Token streams

A token stream takes tokens from a source one at a time and reads a line only when the lines before
it are used up.

* `next` takes a token, `peek` looks at it without taking it, and `next?` takes a token unless the
  input is at its end.
* In the layout `linewise` a line feed gives a token of its own, in `freeform` it is a blank.
* A stray character is taken by the failure that reports it.  A failed read changes nothing but the
  source: the line held, its number and what is left of it stay.
* Positions on a line are kept in bytes, places are given in columns: `placeOf` turns the one into the
  other.  The end of a line is the column `lineWidth`, and `endsAt_iff` says which one that is.
-/

namespace Polish

inductive Layout where
  | linewise
  | freeform
  deriving DecidableEq, Repr

/-- A position in a source, with the line that is being taken apart. -/
structure TokenStream where
  layout : Layout
  unread : List Read
  consumed : Nat := 0
  -- the line held and its number, which is zero before the first line
  text : List Char := []
  line : Nat := 0
  -- how many bytes of the line are used up, and whether its end is still to be given as a token
  offset : Nat := 0
  owesEnd : Bool := false
  -- the source was found to be at its end, and is not asked again
  finished : Bool := false
  lookahead : Option Token := none

namespace TokenStream

def ofSource (layout : Layout) (source : Source) : TokenStream where
  layout := layout
  unread := source.reads

def ofString (s : String) : TokenStream :=
  ofSource .freeform (.ofString s)

def rest (s : TokenStream) : List Char :=
  Text.behind s.text s.offset

/-! ## One line -/

/-- The number of characters of a line before the line feeds and carriage returns at its end. -/
def lineWidth (line : List Char) : Nat :=
  (line.reverse.dropWhile fun c => c == '\n' || c == '\r').length

/-- The text of the line ends at this column: so many characters stand in front of nothing but line
    feeds and carriage returns, and the last of them is neither. -/
def EndsAt (line : List Char) (column : Nat) : Prop :=
  ∃ text ending, line = text ++ ending ∧ text.length = column ∧
    (∀ c ∈ text.getLast?, c ≠ '\n' ∧ c ≠ '\r') ∧ ∀ c ∈ ending, c = '\n' ∨ c = '\r'

theorem lineWidth_append {ending : List Char} (ends : ∀ c ∈ ending, c = '\n' ∨ c = '\r')
    (cs : List Char) : lineWidth (cs ++ ending) = lineWidth cs := by
  rw [lineWidth, Text.dropWhile_reverse_append, lineWidth]
  intro c member
  obtain rfl | rfl := ends c member <;> rfl

theorem lineWidth_of_getLast? {text : List Char} (last : ∀ c ∈ text.getLast?, c ≠ '\n' ∧ c ≠ '\r') :
    lineWidth text = text.length := by
  rw [lineWidth, Text.dropWhile_reverse_of_getLast?, List.length_reverse]
  intro c member
  simp [last c member]

/-- The width of a line is the one column where its text ends. -/
theorem endsAt_iff {line : List Char} {column : Nat} : EndsAt line column ↔ lineWidth line = column := by
  constructor
  · rintro ⟨text, ending, rfl, rfl, last, ends⟩
    rw [lineWidth_append ends, lineWidth_of_getLast? last]
  · rintro rfl
    obtain ⟨⟨ending, whole, ends⟩, last⟩ := Text.exists_trimmed (fun c => c == '\n' || c == '\r') line
    refine ⟨_, ending, whole, List.length_reverse, fun c member => ?_, fun c member => ?_⟩
    · simpa using last c member
    · simpa using ends c member

/-- The token for the end of the line held.  An input without any line ends on line one. -/
def ending (s : TokenStream) (reached : Terminator) : Token :=
  .ofEnding reached ⟨max s.line 1, lineWidth s.text, lineWidth s.text⟩

def diagnose (s : TokenStream) (cause : Cause) (place : Place) : Diagnostic :=
  .located cause place (String.ofList s.text)

def placeOf (s : TokenStream) (start stop : Nat) : Place :=
  let first := Text.columnAt s.text start
  ⟨s.line, first, first + (Text.slice s.text start stop).length⟩

def answer (s : TokenStream) (place : Place) : Lexeme → Except Failure Token
  | .word chars => .ok (.ofWord chars place)
  | .stray c => .error (.malformed (s.diagnose (.strayCharacter c) place))

/-- The next result on the line held: its next piece, or its end if that is owed. -/
def onLine? (s : TokenStream) : Option (Except Failure Token × TokenStream) :=
  match Lexeme.findAt? s.text s.offset with
  | some (start, lexeme) =>
    let stop := start + lexeme.size
    some (s.answer (s.placeOf start stop) lexeme, { s with offset := stop })
  | none =>
    if s.owesEnd then some (.ok (s.ending .endOfLine), { s with owesEnd := false }) else none

/-- What the line held is made of where a piece was found on it: the text `before` the offset,
    `blanks`, the piece and what stands `after` it. -/
structure Found (s : TokenStream) (before blanks : List Char) (lexeme : Lexeme)
    (after : List Char) : Prop where
  text_eq : s.text = before ++ (blanks ++ (lexeme.chars ++ after))
  offset_eq : Text.byteLength before = s.offset
  next?_eq : Lexeme.next? s.rest = some (blanks, lexeme)

namespace Found

variable {s : TokenStream} {before blanks after : List Char} {lexeme : Lexeme}

theorem rest_eq (found : Found s before blanks lexeme after) :
    s.rest = blanks ++ (lexeme.chars ++ after) := by
  rw [rest, found.text_eq, ← found.offset_eq, Text.behind_append]

theorem placeOf_eq (found : Found s before blanks lexeme after) :
    s.placeOf (Text.byteLength (before ++ blanks))
        (Text.byteLength (before ++ blanks) + lexeme.size) =
      ⟨s.line, (before ++ blanks).length, (before ++ blanks).length + lexeme.chars.length⟩ := by
  have text : s.text = (before ++ blanks) ++ (lexeme.chars ++ after) := by
    rw [found.text_eq, List.append_assoc]
  simp only [placeOf, text, Text.columnAt_append, Lexeme.size, Text.slice_append]

theorem onLine?_eq (found : Found s before blanks lexeme after) :
    s.onLine? = some
      (s.answer ⟨s.line, (before ++ blanks).length,
        (before ++ blanks).length + lexeme.chars.length⟩ lexeme,
      { s with offset := Text.byteLength (before ++ blanks ++ lexeme.chars) }) := by
  have located : Lexeme.findAt? s.text s.offset =
      some (Text.byteLength (before ++ blanks), lexeme) := by
    rw [Lexeme.findAt?, ← TokenStream.rest, found.next?_eq, Option.map_some, Text.byteLength_append,
      found.offset_eq]
  have stop : Text.byteLength (before ++ blanks ++ lexeme.chars) =
      Text.byteLength (before ++ blanks) + lexeme.size :=
    Text.byteLength_append _ _
  rw [stop, ← found.placeOf_eq, onLine?, located]

end Found

theorem onLine?_of_next?_eq_none {s : TokenStream} (nothing : Lexeme.next? s.rest = none) :
    s.onLine? =
      if s.owesEnd then some (.ok (s.ending .endOfLine), { s with owesEnd := false })
      else none := by
  have missing : Lexeme.findAt? s.text s.offset = none := by
    rw [Lexeme.findAt?, ← rest, nothing, Option.map_none]
  rw [onLine?, missing]

theorem onLine?_eq_none_iff {s : TokenStream} :
    s.onLine? = none ↔ Lexeme.next? s.rest = none ∧ s.owesEnd = false := by
  rw [onLine?, Lexeme.findAt?, ← rest]
  cases Lexeme.next? s.rest with
  | some piece => simp
  | none => cases s.owesEnd <;> simp

theorem onLine?_cases {s s' : TokenStream} {r : Except Failure Token}
    (h : s.onLine? = some (r, s')) :
    (∃ before blanks lexeme after, Found s before blanks lexeme after ∧
      r = s.answer ⟨s.line, (before ++ blanks).length,
        (before ++ blanks).length + lexeme.chars.length⟩ lexeme ∧
      s' = { s with offset := Text.byteLength (before ++ blanks ++ lexeme.chars) }) ∨
    (Lexeme.next? s.rest = none ∧ s.owesEnd = true ∧ r = .ok (s.ending .endOfLine) ∧
      s' = { s with owesEnd := false }) := by
  rw [onLine?] at h
  split at h
  · next start lexeme located =>
    obtain ⟨before, blanks, after, next, text, offset, rfl⟩ :=
      Lexeme.exists_eq_append_of_findAt? located
    have found : Found s before blanks lexeme after := ⟨text, offset, next⟩
    cases h
    refine .inl ⟨before, blanks, lexeme, after, found, ?_, ?_⟩
    · rw [found.placeOf_eq]
    · simp [Lexeme.size, Nat.add_assoc]
  · next missing =>
    split at h
    · next owed =>
      cases h
      exact .inr ⟨Option.map_eq_none_iff.1 missing, owed, rfl, rfl⟩
    · contradiction

def hold (s : TokenStream) (text : List Char) : TokenStream :=
  { s with
    text := text
    line := s.line + 1
    offset := 0
    owesEnd := s.layout = .linewise && text.getLast? = some '\n' }

def advance (s : TokenStream) (size : Nat) (unread : List Read) : TokenStream :=
  { s with unread := unread, consumed := s.consumed + size }

/-! ## Taking tokens -/

/-- The next result after the lookahead, when `unread` are the reads that are still to be made. -/
def scanFrom (s : TokenStream) : (unread : List Read) → Except Failure Token × TokenStream
  | [] => s.onLine?.getD (.ok (s.ending .endOfInput), { s with finished := true })
  | read :: unread =>
    match s.onLine? with
    | some result => result
    | none =>
      match read.outcome with
      -- a failed read leaves the line held and its number as they are
      | .error message => (.error (.io message), s.advance read.size unread)
      | .ok text => ((s.advance read.size unread).hold text).scanFrom unread

def scan (s : TokenStream) : Except Failure Token × TokenStream :=
  if s.finished then (.ok (s.ending .endOfInput), s) else s.scanFrom s.unread

def skip (s : TokenStream) : TokenStream :=
  { s with lookahead := none }

def next (s : TokenStream) : Except Failure Token × TokenStream :=
  match s.lookahead with
  | some token => (.ok token, s.skip)
  | none => s.scan

theorem next_of_lookahead {s : TokenStream} {token : Token} (looked : s.lookahead = some token) :
    s.next = (.ok token, s.skip) := by
  rw [next, looked]

theorem next_of_idle {s : TokenStream} (idle : s.lookahead = none) : s.next = s.scan := by
  rw [next, idle]

/-- Looks at the next token and leaves it in the stream.  A failure is taken out of it. -/
def peek (s : TokenStream) : Except Failure Token × TokenStream :=
  match s.lookahead with
  | some token => (.ok token, s)
  | none =>
    match s.scan with
    | (.ok token, s) => (.ok token, { s with lookahead := some token })
    | (.error failure, s) => (.error failure, s)

theorem peek_of_lookahead {s : TokenStream} {token : Token} (looked : s.lookahead = some token) :
    s.peek = (.ok token, s) := by
  rw [peek, looked]

theorem peek_of_scan_ok {s s' : TokenStream} {token : Token} (idle : s.lookahead = none)
    (scanned : s.scan = (.ok token, s')) :
    s.peek = (.ok token, { s' with lookahead := some token }) := by
  rw [peek, idle]
  simp only [scanned]

theorem peek_of_scan_error {s s' : TokenStream} {failure : Failure} (idle : s.lookahead = none)
    (scanned : s.scan = (.error failure, s')) : s.peek = (.error failure, s') := by
  rw [peek, idle]
  simp only [scanned]

def next? (s : TokenStream) : Option (Except Failure Token) × TokenStream :=
  match s.next with
  | (.ok token, s) => if token.isLast then (none, s) else (some (.ok token), s)
  | (.error failure, s) => (some (.error failure), s)

end TokenStream

end Polish
