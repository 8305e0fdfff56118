import Polish.Proofs.Items
import Polish.Proofs.Lines
import Polish.Proofs.Pieces

/-! # Keeping track of the line

A diagnostic shows the line that the stream holds when it is made, while its place comes from a token
that may have been looked at before.  What ties the two together is kept by every step of a stream.

* `Tracks` is this invariant: the line held is the last one that was read, its number counts the lines
  of the source, and a token that was looked at stands on it.
* `Tracks.next` and `Tracks.peek`: as long as no failure comes, the stream keeps track, and a failure
  points at the text that it is about: `Diagnostic.Points`.
-/

namespace Polish

/-! ## What a place has to do with a line -/

def Place.Holds (place : Place) (line : List Char) (l : Lexeme) : Prop :=
  Piece.IsOf line ⟨place.start, l⟩ ∧ place.stop = place.start + l.chars.length

/-- The empty place where the text of the line ends. -/
def Place.AtEnd (place : Place) (line : List Char) : Prop :=
  TokenStream.EndsAt line place.start ∧ place.stop = place.start

/-- What the place of a diagnostic is for its cause, where the source has `count` lines. -/
def Cause.Marks (cause : Cause) (line : List Char) (place : Place) (count : Nat) : Prop :=
  match cause with
  | .strayCharacter c => place.Holds line (.stray c)
  | .unknownOperator symbol => place.Holds line (.word symbol.toList)
  | .secondExpression lexeme => place.Holds line (.word lexeme.toList)
  | .missingExpression reached => reached = .endOfLine ∧ place.AtEnd line
  | .missingOperand symbol _ _ reached =>
    place.AtEnd line ∧ (reached = .endOfInput → place.line = count) ∧
      ∀ c ∈ symbol.toList, Text.isVisible c = true
  | .other _ => False

/-- A diagnostic points at `place`, shows `line`, which is the line of the source with the number of
    the place, and the place fits its cause. -/
structure Diagnostic.Points (source : Source) (d : Diagnostic) (place : Place) (line : List Char) :
    Prop where
  place_eq : d.place = some place
  code_eq : d.code = some (String.ofList line)
  file_eq : d.file = none
  note_eq : d.note = d.cause.note?
  counted : 0 < place.line
  line_eq : source.lines[place.line - 1]? = some (Text.encode line)
  marks : d.cause.Marks line place source.lines.length

def Failure.Points (source : Source) (failure : Failure) : Prop :=
  ∀ d, failure = .malformed d → ∃ place line, d.Points source place line

namespace TokenStream

def Places (s : TokenStream) (token : Token) : Prop :=
  match token.kind with
  | .ending reached =>
    token.place.AtEnd s.text ∧ token.place.line = max s.line 1 ∧
      (reached = .endOfLine → 0 < s.line) ∧ (reached = .endOfInput → s.unread = [])
  | _ => token.place.Holds s.text (.word token.lexeme.toList) ∧ token.place.line = s.line

/-- The stream has read some lines of the source without a failure, and holds the last of them. -/
structure Tracks (source : Source) (s : TokenStream) : Prop where
  reads : ∃ (made : List Read) (texts : List (List Char)), source.reads = made ++ s.unread ∧
    made.map Read.outcome = texts.map Except.ok ∧ texts.length = s.line ∧
    texts.getLast?.getD [] = s.text
  offset : ∃ before behind, s.text = before ++ behind ∧ Text.byteLength before = s.offset ∧
    Parted before behind
  owes : s.owesEnd = true → 0 < s.line
  finished : s.finished = true → s.unread = []
  looked : ∀ token ∈ s.lookahead, s.Places token

/-- A result behind which the stream keeps track and satisfies `good`, or a failure that points at the
    source. -/
def Kept {α : Type} (source : Source) (good : α → TokenStream → Prop) :
    Except Failure α × TokenStream → Prop
  | (.ok v, s) => s.Tracks source ∧ good v s
  | (.error failure, _) => failure.Points source

variable {source : Source} {s : TokenStream}

theorem tracks_ofSource (layout : Layout) (source : Source) :
    (ofSource layout source).Tracks source where
  reads := ⟨[], [], rfl, rfl, rfl, rfl⟩
  offset := ⟨[], [], rfl, rfl, parted_nil []⟩
  owes := by simp [ofSource]
  finished := by simp [ofSource]
  looked := by simp [ofSource]

theorem places_ofWord {chars : List Char} {place : Place} (holds : place.Holds s.text (.word chars))
    (number : place.line = s.line) : s.Places (.ofWord chars place) := by
  unfold Places Token.ofWord
  cases Number.read? chars <;> exact ⟨by rwa [String.toList_ofList], number⟩

theorem places_ending {reached : Terminator} (read : reached = .endOfLine → 0 < s.line)
    (all : reached = .endOfInput → s.unread = []) : s.Places (s.ending reached) :=
  ⟨⟨endsAt_iff.2 rfl, rfl⟩, rfl, read, all⟩

namespace Tracks

/-! ## The line held -/

theorem line_pos (tracks : s.Tracks source) (some : s.text ≠ []) : 0 < s.line := by
  obtain ⟨_, texts, _, _, count, last⟩ := tracks.reads
  rw [← count]
  refine List.length_pos_iff.2 fun none => some ?_
  rw [← last, none]
  rfl

theorem line_eq (tracks : s.Tracks source) (counted : 0 < s.line) :
    source.lines[s.line - 1]? = some (Text.encode s.text) := by
  obtain ⟨made, texts, reads, succeed, count, last⟩ := tracks.reads
  obtain ⟨later, lines, _⟩ := Source.exists_lines_of_reads reads succeed
  have inside : s.line - 1 < (texts.map Text.encode).length := by
    rw [List.length_map]
    omega
  rw [lines, List.getElem?_append_left inside, List.getElem?_map, ← count,
    ← List.getLast?_eq_getElem?, ← last]
  cases final : texts.getLast? with
  | none =>
    rw [← count, List.getLast?_eq_none_iff.1 final] at counted
    contradiction
  | some text => rfl

theorem length_reads (tracks : s.Tracks source) :
    source.reads.length = s.line + s.unread.length := by
  obtain ⟨made, texts, reads, succeed, count, _⟩ := tracks.reads
  have same := congrArg List.length succeed
  rw [List.length_map, List.length_map, count] at same
  rw [reads, List.length_append, same]

theorem line_eq_length (tracks : s.Tracks source) (all : s.unread = []) :
    s.line = source.lines.length := by
  obtain ⟨made, texts, reads, succeed, count, _⟩ := tracks.reads
  obtain ⟨later, lines, none⟩ := Source.exists_lines_of_reads reads succeed
  rw [lines, none all, List.append_nil, List.length_map, count]

theorem points (tracks : s.Tracks source) {cause : Cause} {place : Place} (counted : 0 < s.line)
    (number : place.line = s.line) (marks : cause.Marks s.text place source.lines.length) :
    (Failure.malformed (s.diagnose cause place)).Points source := by
  rintro _ ⟨⟩
  exact ⟨place, s.text, rfl, rfl, rfl, rfl, number ▸ counted, number ▸ tracks.line_eq counted, marks⟩

/-! ## One line -/

theorem onLine? (tracks : s.Tracks source) (idle : s.lookahead = none)
    {result : Except Failure Token × TokenStream} (answered : s.onLine? = some result) :
    Kept source (fun token s => s.Places token) result := by
  obtain ⟨before, behind, text, offset, parted⟩ := tracks.offset
  have rest : s.rest = behind := by
    rw [TokenStream.rest, text, ← offset, Text.behind_append]
  -- no run is cut at the offset, so that what is found behind it is a piece of the whole line
  cases next : Lexeme.next? behind with
  | none =>
    rw [onLine?_of_next?_eq_none (rest ▸ next)] at answered
    split at answered
    · next owed =>
      cases answered
      have counted := tracks.owes owed
      exact ⟨⟨tracks.reads, tracks.offset, by simp, tracks.finished, by simp [idle]⟩,
        places_ending (fun _ => counted) (by simp)⟩
    · contradiction
  | some piece =>
    obtain ⟨blanks, l⟩ := piece
    obtain ⟨after, rfl, _, fits⟩ := Lexeme.exists_of_next? next
    have found : Found s before blanks l after := ⟨text, offset, rest ▸ next⟩
    rw [found.onLine?_eq] at answered
    cases answered
    obtain ⟨fits, parted⟩ := fits before parted
    have counted : 0 < s.line := tracks.line_pos <| by
      simp [text, Lexeme.chars_ne_nil_of_next? next]
    have holds : Place.Holds ⟨s.line, (before ++ blanks).length,
        (before ++ blanks).length + l.chars.length⟩ s.text l :=
      ⟨⟨before ++ blanks, after, by simp [text, Piece.chars], rfl, fits⟩, rfl⟩
    have goesOn : Tracks source
        { s with offset := Text.byteLength (before ++ blanks ++ l.chars) } :=
      ⟨tracks.reads, ⟨before ++ blanks ++ l.chars, after, by simp [text], rfl, parted⟩, tracks.owes,
        tracks.finished, by simp [idle]⟩
    cases l with
    | word chars =>
      exact ⟨goesOn, places_ofWord holds rfl⟩
    | stray c => exact tracks.points counted rfl holds

theorem hold (tracks : s.Tracks source) (idle : s.lookahead = none) (open_ : s.finished = false)
    {read : Read} {unread : List Read} {text : List Char} (reads : s.unread = read :: unread)
    (line : read.outcome = .ok text) : ((s.advance read.size unread).hold text).Tracks source := by
  obtain ⟨made, texts, all, succeed, count, _⟩ := tracks.reads
  -- one more read has succeeded, and its line is the one held
  refine ⟨⟨made ++ [read], texts ++ [text], ?_, ?_, ?_, ?_⟩, ⟨[], text, rfl, rfl, parted_nil text⟩,
    fun _ => Nat.succ_pos _, ?_, ?_⟩
  · rw [all, reads, List.append_assoc]
    rfl
  · rw [List.map_append, List.map_append, succeed, List.map_singleton, List.map_singleton, line]
  · rw [List.length_append, count]
    rfl
  · rw [List.getLast?_append]
    rfl
  · simp [TokenStream.hold, advance, open_]
  · simp [TokenStream.hold, advance, idle]

theorem finish (tracks : s.Tracks source) (idle : s.lookahead = none) (all : s.unread = []) :
    Kept source (fun token s => s.Places token)
      (.ok (s.ending .endOfInput), { s with finished := true }) :=
  ⟨⟨tracks.reads, tracks.offset, tracks.owes, fun _ => all, by simp [idle]⟩,
    places_ending (by simp) fun _ => all⟩

/-! ## Taking tokens -/

theorem scanFrom (tracks : s.Tracks source) (idle : s.lookahead = none) (open_ : s.finished = false)
    {unread : List Read} (reads : s.unread = unread) :
    Kept source (fun token s => s.Places token) (s.scanFrom unread) := by
  induction unread generalizing s with
  | nil =>
    rw [TokenStream.scanFrom]
    cases answered : s.onLine? with
    | none => exact tracks.finish idle reads
    | some result => exact tracks.onLine? idle answered
  | cons read unread ih =>
    rw [TokenStream.scanFrom]
    cases answered : s.onLine? with
    | some result => exact tracks.onLine? idle answered
    | none =>
      cases line : read.outcome with
      | error message =>
        -- a failed read is no diagnostic
        intro d same
        cases same
      | ok text => exact ih (tracks.hold idle open_ reads line) idle open_ rfl

theorem scan (tracks : s.Tracks source) (idle : s.lookahead = none) :
    Kept source (fun token s => s.Places token) s.scan := by
  rw [TokenStream.scan]
  split
  · next done =>
    exact ⟨tracks, places_ending (by simp) fun _ => tracks.finished done⟩
  · next open_ => exact tracks.scanFrom idle (by simpa using open_) rfl

/-- Taking a token keeps track of the line, and the token stands on it. -/
theorem next (tracks : s.Tracks source) :
    Kept source (fun token s => s.Places token) s.next := by
  cases looked : s.lookahead with
  | none =>
    rw [next_of_idle looked]
    exact tracks.scan looked
  | some token =>
    rw [next_of_lookahead looked]
    exact ⟨⟨tracks.reads, tracks.offset, tracks.owes, tracks.finished, by simp [skip]⟩,
      tracks.looked token looked⟩

theorem peek (tracks : s.Tracks source) :
    Kept source (fun token s => s.Places token) s.peek := by
  cases looked : s.lookahead with
  | some token =>
    rw [peek_of_lookahead looked]
    exact ⟨tracks, tracks.looked token looked⟩
  | none =>
    have kept := tracks.scan looked
    rcases scanned : s.scan with ⟨failure | token, s'⟩ <;> rw [scanned] at kept
    · rw [peek_of_scan_error looked scanned]
      exact kept
    · obtain ⟨tracks', places⟩ := kept
      rw [peek_of_scan_ok looked scanned]
      -- the token stands on the line held now, and that line stays while it is looked at
      refine ⟨⟨tracks'.reads, tracks'.offset, tracks'.owes, tracks'.finished, ?_⟩, places⟩
      rintro _ ⟨⟩
      exact places

end Tracks

end TokenStream

end Polish
