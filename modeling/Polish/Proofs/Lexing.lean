import Polish.Proofs.Items
import Polish.Proofs.Pieces
import Polish.Proofs.Stretches

/-! # The items of a text

The items of a stream over a text are told line by line: the pieces of each line from the left, the
end of the line where lines count, and after the last line the end of the input.

* `itemsOfLines` is this list, made without a stream.
* `gives_pieces` and `gives_line` go along one line, `results_of_lines` from line to line.
* `results_of_text` says that the items are those, and that they leave out nothing of the text.
-/

namespace Polish

def Piece.item (line : List Char) (n : Nat) (p : Piece) : Except Failure Token :=
  let place : Place := ⟨n, p.start, p.stop⟩
  match p.lexeme with
  | .word chars => .ok (.ofWord chars place)
  | .stray c =>
    .error (.malformed (.located (.strayCharacter c) place (String.ofList line)))

def endingOf (reached : Terminator) (line : List Char) (n : Nat) : Token :=
  .ofEnding reached ⟨n, TokenStream.lineWidth line, TokenStream.lineWidth line⟩

/-- An ending has no characters, and is where the text of its line ends. -/
theorem exists_endingOf_eq (reached : Terminator) (line : List Char) (n : Nat) :
    ∃ column, TokenStream.EndsAt line column ∧
      endingOf reached line n = ⟨.ending reached, "", ⟨n, column, column⟩⟩ :=
  ⟨_, TokenStream.endsAt_iff.2 rfl, rfl⟩

def itemsOfLine (layout : Layout) (n : Nat) (line : List Char) : List (Except Failure Token) :=
  (pieces line).map (Piece.item line n) ++
    if layout = .linewise ∧ line.getLast? = some '\n' then [.ok (endingOf .endOfLine line n)] else []

def itemsOfLines (layout : Layout) (n : Nat) : List (List Char) → List (Except Failure Token)
  | [] => []
  | line :: lines => itemsOfLine layout n line ++ itemsOfLines layout (n + 1) lines

/-- The items of some reads, the first line of which has the number `n`: those of the lines that were
    read, and a failure for each other read. -/
def itemsOfReads (layout : Layout) (n : Nat) : List Read → List (Except Failure Token)
  | [] => []
  | read :: reads =>
    match read.outcome with
    | .ok line => itemsOfLine layout n line ++ itemsOfReads layout (n + 1) reads
    | .error message => .error (.io message) :: itemsOfReads layout n reads

namespace TokenStream

def readOf (line : List Char) : Read :=
  ⟨Text.byteLength line, .ok line⟩

theorem itemsOfReads_map_readOf (layout : Layout) (n : Nat) (lines : List (List Char)) :
    itemsOfReads layout n (lines.map readOf) = itemsOfLines layout n lines := by
  induction lines generalizing n with
  | nil => rfl
  | cons line lines ih => rw [itemsOfLines, ← ih, List.map_cons, itemsOfReads, readOf]

theorem textsOf_map_readOf (lines : List (List Char)) : textsOf (lines.map readOf) = lines := by
  induction lines with
  | nil => rfl
  | cons line lines ih =>
    rw [List.map_cons, textsOf_cons, ih]
    rfl

def Gives (s : TokenStream) (items : List (Except Failure Token)) (s' : TokenStream) : Prop :=
  s.results items.length = items ∧ s.after items.length = s'

variable {s s' : TokenStream} {items : List (Except Failure Token)}

theorem gives_nil : s.Gives [] s := ⟨rfl, rfl⟩

theorem gives_cons {item : Except Failure Token} {s₁ : TokenStream} (first : s.next = (item, s₁))
    (others : s₁.Gives items s') : s.Gives (item :: items) s' := by
  obtain ⟨results, after⟩ := others
  constructor
  · rw [List.length_cons, TokenStream.results, first, results]
  · rw [List.length_cons, TokenStream.after, first, after]

theorem Gives.append {s₁ : TokenStream} {others : List (Except Failure Token)}
    (first : s.Gives items s₁) (second : s₁.Gives others s') : s.Gives (items ++ others) s' := by
  obtain ⟨results, rfl⟩ := first
  obtain ⟨results', rfl⟩ := second
  constructor
  · rw [List.length_append, results_add, results, results']
  · rw [List.length_append, after_add]

theorem Gives.results_append (gives : s.Gives items s') (n : Nat) :
    s.results (items.length + n) = items ++ s'.results n := by
  rw [results_add, gives.1, gives.2]

theorem results_congr (same : s.next = s'.next) (n : Nat) :
    s.results (n + 1) = s'.results (n + 1) := by
  rw [results, results, same]

/-! ## One line -/

/-- Nothing was looked at, and the source may hold more. -/
structure Ready (s : TokenStream) : Prop where
  idle : s.lookahead = none
  unfinished : s.finished = false

theorem Ready.next_eq (ready : s.Ready) : s.next = s.scanFrom s.unread := by
  rw [next_of_idle ready.idle]
  simp only [scan, ready.unfinished, Bool.false_eq_true, if_false]

theorem Ready.next_of_onLine? (ready : s.Ready) {result : Except Failure Token × TokenStream}
    (answered : s.onLine? = some result) : s.next = result := by
  rw [ready.next_eq]
  cases s.unread with
  | nil => rw [scanFrom, answered, Option.getD_some]
  | cons read unread => rw [scanFrom, answered]

theorem Ready.next_of_read (ready : s.Ready) (nothing : s.onLine? = none) {size : Nat}
    {text : List Char} {unread : List Read} (reads : s.unread = ⟨size, .ok text⟩ :: unread) :
    s.next = ((s.advance size unread).hold text).next := by
  have held : ((s.advance size unread).hold text).Ready := ⟨ready.idle, ready.unfinished⟩
  rw [ready.next_eq, held.next_eq, reads, scanFrom, nothing]
  rfl

theorem Ready.next_at_end (ready : s.Ready) (nothing : s.onLine? = none) (reads : s.unread = []) :
    s.next = (.ok (s.ending .endOfInput), { s with finished := true }) := by
  have scanned : s.next = s.scanFrom [] := reads ▸ ready.next_eq
  rw [scanned, scanFrom, nothing, Option.getD_none]

theorem gives_pieces (before rest : List Char) (ready : s.Ready) (text : s.text = before ++ rest)
    (offset : Text.byteLength before = s.offset) :
    ∃ stop, s.Gives ((piecesFrom before.length rest).map (Piece.item s.text s.line))
        { s with offset := stop } ∧
      Lexeme.next? ({ s with offset := stop } : TokenStream).rest = none := by
  induction before, rest using cut_induction generalizing s with
  | ends before rest none =>
    rw [piecesFrom_of_none none]
    refine ⟨s.offset, gives_nil, ?_⟩
    rw [TokenStream.rest, text, ← offset, Text.behind_append]
    exact none
  | goesOn before blanks l after next ih =>
    have found : Found s before blanks l after := by
      refine ⟨text, offset, ?_⟩
      rw [TokenStream.rest, text, ← offset, Text.behind_append]
      exact next
    -- the stream goes on at the byte behind the piece, where the rest of the cut starts
    obtain ⟨stop, gives, nothing⟩ :=
      ih (s := { s with offset := Text.byteLength (before ++ blanks ++ l.chars) })
        ⟨ready.idle, ready.unfinished⟩ (by simp [text]) rfl
    refine ⟨stop, ?_, nothing⟩
    rw [piecesFrom_of_found next, List.map_cons]
    refine gives_cons ?_ gives
    rw [ready.next_of_onLine? found.onLine?_eq]
    cases l <;> rfl

theorem gives_line (ready : s.Ready) (start : s.offset = 0) (counted : 0 < s.line)
    (owes : s.owesEnd = (s.layout = .linewise && s.text.getLast? = some '\n')) :
    ∃ s', s.Gives (itemsOfLine s.layout s.line s.text) s' ∧ s'.Ready ∧ s'.onLine? = none ∧
      s'.unread = s.unread ∧ s'.text = s.text ∧ s'.line = s.line ∧ s'.layout = s.layout := by
  obtain ⟨stop, gives, nothing⟩ :=
    gives_pieces [] s.text ready rfl start.symm
  have stands : ({ s with offset := stop } : TokenStream).Ready := ⟨ready.idle, ready.unfinished⟩
  have onLine := onLine?_of_next?_eq_none nothing
  rw [itemsOfLine]
  by_cases feed : s.layout = .linewise ∧ s.text.getLast? = some '\n'
  · have owed : s.owesEnd = true := by simpa [owes] using feed
    have last := stands.next_of_onLine? (onLine.trans (if_pos owed))
    rw [if_pos feed]
    refine ⟨{ s with offset := stop, owesEnd := false }, gives.append (gives_cons ?_ gives_nil),
      ⟨ready.idle, ready.unfinished⟩, onLine?_of_next?_eq_none nothing, rfl, rfl, rfl, rfl⟩
    rw [last, ending, endingOf, Nat.max_eq_left counted]
  · have free : ¬ s.owesEnd = true := by simpa [owes] using feed
    rw [if_neg feed, List.append_nil]
    exact ⟨_, gives, stands, onLine.trans (if_neg free), rfl, rfl, rfl, rfl⟩

theorem next_of_finished (idle : s.lookahead = none) (finished : s.finished = true) :
    s.next = (.ok (s.ending .endOfInput), s) := by
  rw [next_of_idle idle, scan, if_pos finished]

theorem results_of_finished (idle : s.lookahead = none) (finished : s.finished = true) (m : Nat) :
    s.results m = List.replicate m (.ok (s.ending .endOfInput)) := by
  induction m with
  | zero => rfl
  | succ m ih => rw [results, next_of_finished idle finished, ih, List.replicate_succ]

/-- Where a line is used up, the items of the reads to come are given, and then the end of the input
    again and again. -/
theorem results_of_reads {reads : List Read} (ready : s.Ready) (nothing : s.onLine? = none)
    (unread : s.unread = reads) (m : Nat) :
    s.results ((itemsOfReads s.layout (s.line + 1) reads).length + (m + 1)) =
      itemsOfReads s.layout (s.line + 1) reads ++
        List.replicate (m + 1) (.ok (endingOf .endOfInput ((textsOf reads).getLast?.getD s.text)
          (max (s.line + (textsOf reads).length) 1))) := by
  induction reads generalizing s with
  | nil =>
    have ended : ({ s with finished := true } : TokenStream).results m =
        List.replicate m (.ok (s.ending .endOfInput)) :=
      results_of_finished (s := { s with finished := true }) ready.idle rfl m
    rw [itemsOfReads, List.length_nil, Nat.zero_add, List.nil_append, results,
      ready.next_at_end nothing unread, ended, List.replicate_succ]
    rfl
  | cons read reads ih =>
    obtain ⟨size, failure | line⟩ := read
    -- a failed read is an item of its own, and leaves the line held as it was
    · have lost : s.next = (.error (.io failure), s.advance size reads) := by
        rw [ready.next_eq, unread, scanFrom, nothing]
      have used := onLine?_eq_none_iff.1 nothing
      have others := ih (s := s.advance size reads) ⟨ready.idle, ready.unfinished⟩
        (onLine?_eq_none_iff.2 used) rfl
      have first : itemsOfReads s.layout (s.line + 1) (⟨size, .error failure⟩ :: reads) =
          .error (.io failure) :: itemsOfReads s.layout (s.line + 1) reads := rfl
      rw [first, List.length_cons, Nat.add_right_comm, results, lost, List.cons_append]
      exact congrArg _ others
    -- to look for an item where the line is used up is to look for it on the next line
    · obtain ⟨s', gives, ready', nothing', unread', text, number, layout⟩ :=
        gives_line (s := (s.advance size reads).hold line)
          ⟨ready.idle, ready.unfinished⟩ rfl (Nat.succ_pos _) rfl
      have gives : TokenStream.Gives _ (itemsOfLine s.layout (s.line + 1) line) s' := gives
      have others := ih ready' nothing' unread'
      rw [number, text, layout] at others
      have last : (textsOf (⟨size, .ok line⟩ :: reads)).getLast?.getD s.text =
          (textsOf reads).getLast?.getD line := by
        rw [textsOf_cons]
        exact congrArg (Option.getD · s.text) List.getLast?_cons
      have count : s.line + (textsOf (⟨size, .ok line⟩ :: reads)).length =
          s.line + 1 + (textsOf reads).length := by
        rw [textsOf_cons, List.length_append, ← Nat.add_assoc]
        rfl
      have first : itemsOfReads s.layout (s.line + 1) (⟨size, .ok line⟩ :: reads) =
          itemsOfLine s.layout (s.line + 1) line ++ itemsOfReads s.layout (s.line + 2) reads := rfl
      rw [first, last, count, List.length_append, ← Nat.add_assoc _ m 1,
        results_congr (ready.next_of_read nothing unread), Nat.add_assoc _ m 1,
        Nat.add_assoc (List.length _), gives.results_append, List.append_assoc]
      exact congrArg _ others

theorem results_of_lines {lines : List (List Char)} (ready : s.Ready) (nothing : s.onLine? = none)
    (reads : s.unread = lines.map readOf) :
    s.results ((itemsOfLines s.layout (s.line + 1) lines).length + 1) =
      itemsOfLines s.layout (s.line + 1) lines ++
        [.ok (endingOf .endOfInput (lines.getLast?.getD s.text) (max (s.line + lines.length) 1))] := by
  have results := results_of_reads ready nothing reads 0
  rwa [itemsOfReads_map_readOf, textsOf_map_readOf] at results

end TokenStream

/-! ## A whole text -/

/-- The source holds a text and never fails, however the bytes of the text are cut into pieces. -/
def Source.Holds (source : Source) (cs : List Char) : Prop :=
  source.signals = (Text.encode cs).map .byte

theorem Source.holds_ofString (s : String) : (Source.ofString s).Holds s.toList := by
  simp [Source.Holds, Source.ofString, Source.signals, Source.signalsOf]

/-- The items of a text are those of its lines, and then the end of the input again and again. -/
theorem TokenStream.results_of_holds {source : Source} {cs : List Char} (holds : source.Holds cs)
    (layout : Layout) (m : Nat) :
    ∃ last number, (ofSource layout source).results
        ((itemsOfLines layout 1 (linesBy '\n' cs)).length + (m + 1)) =
      itemsOfLines layout 1 (linesBy '\n' cs) ++
        List.replicate (m + 1) (.ok (endingOf .endOfInput last number)) := by
  have unread : (ofSource layout source).unread = (linesBy '\n' cs).map readOf :=
    Source.reads_of_text holds
  rw [← itemsOfReads_map_readOf]
  exact ⟨_, _, results_of_reads ⟨rfl, rfl⟩ rfl unread m⟩

/-- The characters that an item is made of. -/
def charsOf : Except Failure Token → List Char
  | .ok token => token.lexeme.toList
  | .error (.malformed d) =>
    match d.cause with
    | .strayCharacter c => [c]
    | _ => []
  | .error _ => []

theorem charsOf_item (line : List Char) (n : Nat) (p : Piece) :
    charsOf (p.item line n) = p.chars := by
  obtain ⟨start, chars | c⟩ := p
  · exact String.toList_ofList
  · rfl

theorem flatMap_charsOf_itemsOfLine (layout : Layout) (n : Nat) (line : List Char) :
    (itemsOfLine layout n line).flatMap charsOf = line.filter fun c => !Text.isBlank c := by
  have pieces_only : (itemsOfLine layout n line).flatMap charsOf =
      (pieces line).flatMap Piece.chars := by
    rw [itemsOfLine, List.flatMap_append, List.flatMap_map]
    simp only [charsOf_item]
    split <;> simp [charsOf, endingOf, Token.ofEnding]
  rw [pieces_only, flatMap_chars_pieces]

theorem flatMap_charsOf_itemsOfLines (layout : Layout) (n : Nat) (lines : List (List Char)) :
    (itemsOfLines layout n lines).flatMap charsOf = lines.flatten.filter fun c => !Text.isBlank c := by
  induction lines generalizing n with
  | nil => rfl
  | cons line lines ih =>
    rw [itemsOfLines, List.flatMap_append, flatMap_charsOf_itemsOfLine, ih, List.flatten_cons,
      List.filter_append]

theorem isLast_eq_false_of_mem_itemsOfLines {layout : Layout} {n : Nat} {lines : List (List Char)}
    {token : Token} (member : .ok token ∈ itemsOfLines layout n lines) : token.isLast = false := by
  induction lines generalizing n with
  | nil => contradiction
  | cons line lines ih =>
    rw [itemsOfLines, itemsOfLine, List.append_assoc, List.mem_append, List.mem_append] at member
    -- words and strays are not, and the line itself ends with another ending
    obtain piece | ending | later := member
    · obtain ⟨⟨start, chars | c⟩, _, same⟩ := List.mem_map.1 piece
      · cases same
        exact Token.isLast_ofWord _ _
      · cases same
    · split at ending
      · cases List.mem_singleton.1 ending
        rfl
      · contradiction
    · exact ih later

/-- The items of a text, in both layouts.
    * They are the items of its lines from the first one on, none of them the end of the input, which
      comes behind them, on the last line.  Of the characters only the blanks are left out.
    * The items of a line are its pieces from the left: each longest run of visible characters, and
      each character that is neither visible nor blank.  No two words touch, and the columns of a
      piece hold its characters.  Where lines count the end of the line comes last.
    * The end of a line and the end of the input have no characters, and their columns are the empty
      range where the text of their line ends. -/
theorem results_of_text (layout : Layout) {source : Source} {cs : List Char}
    (holds : source.Holds cs) :
    let lines := linesBy '\n' cs
    let items := itemsOfLines layout 1 lines
    (TokenStream.ofSource layout source).results (items.length + 1) =
        items ++ [.ok (endingOf .endOfInput (lines.getLast?.getD []) (max lines.length 1))] ∧
      (∀ token, .ok token ∈ items → token.isLast = false) ∧
      items.flatMap charsOf = cs.filter (fun c => !Text.isBlank c) ∧
      (∀ reached line n, ∃ column, TokenStream.EndsAt line column ∧
        endingOf reached line n = ⟨.ending reached, "", ⟨n, column, column⟩⟩) ∧
      ∀ line ∈ lines,
        (∀ p, p ∈ pieces line ↔ p.IsOf line) ∧
        (pieces line).Pairwise (fun p q => p.stop ≤ q.start) ∧
        (∀ start first start' second, Piece.mk start (.word first) ∈ pieces line →
          Piece.mk start' (.word second) ∈ pieces line → start + first.length ≠ start') ∧
        ∀ p ∈ pieces line, (line.take p.stop).drop p.start = p.chars := by
  intro lines items
  have reads : source.reads = lines.map TokenStream.readOf := Source.reads_of_text holds
  refine ⟨?_, fun _ => isLast_eq_false_of_mem_itemsOfLines, ?_, exists_endingOf_eq, fun line _ =>
    ⟨fun _ => mem_pieces_iff, pairwise_pieces line, fun _ _ _ _ first second => ?_,
      fun p member => ?_⟩⟩
  · have results := TokenStream.results_of_lines (s := .ofSource layout source) ⟨rfl, rfl⟩ rfl reads
    rwa [show (TokenStream.ofSource layout source).line + lines.length = lines.length from
      Nat.zero_add _] at results
  · rw [flatMap_charsOf_itemsOfLines, flatten_linesBy]
  · exact stop_ne_start_of_isOf (mem_pieces_iff.1 first) (mem_pieces_iff.1 second)
  · exact (mem_pieces_iff.1 member).drop_take

/-- Two lines, a stray character among words that touch it, and a return that is no part of the text. -/
theorem results_of_text_with_stray :
    let items : List (Except Failure Token) :=
      [.ok ⟨.word, "+", ⟨1, 0, 1⟩⟩,
        .ok ⟨.number 1, "1", ⟨1, 2, 3⟩⟩,
        .error (.malformed
          { cause := .strayCharacter 'é', code := "+ 1é2\r\n", place := some ⟨1, 3, 4⟩ }),
        .ok ⟨.number 2, "2", ⟨1, 4, 5⟩⟩,
        .ok ⟨.ending .endOfLine, "", ⟨1, 5, 5⟩⟩,
        .ok ⟨.number 3, "3", ⟨2, 1, 2⟩⟩,
        .ok ⟨.ending .endOfInput, "", ⟨2, 2, 2⟩⟩]
    (Source.ofString "+ 1é2\r\n 3").Holds "+ 1é2\r\n 3".toList ∧
      (TokenStream.ofSource .linewise (.ofString "+ 1é2\r\n 3")).results 7 = items ∧
      itemsOfLines .linewise 1 ["+ 1é2\r\n".toList, " 3".toList] ++
        [.ok (endingOf .endOfInput " 3".toList 2)] = items := by
  intro items
  have holds := Source.holds_ofString "+ 1é2\r\n 3"
  have lines : linesBy '\n' "+ 1é2\r\n 3".toList = ["+ 1é2\r\n".toList, " 3".toList] := by decide
  have count : (itemsOfLines .linewise 1 ["+ 1é2\r\n".toList, " 3".toList]).length = 6 := by
    decide +kernel
  have results := (results_of_text .linewise holds).1
  rw [lines, count] at results
  have taken : (TokenStream.ofSource .linewise (.ofString "+ 1é2\r\n 3")).results 7 = items := rfl
  exact ⟨holds, taken, results.symm.trans taken⟩

end Polish
