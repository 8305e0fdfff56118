import Polish.Proofs.Alike
import Polish.Proofs.Recovery
import Polish.Proofs.Spacing

/-! # Texts that are laid out differently

The pieces of a text are what an evaluation sees of it.  Which blanks part them, and where lines do not
count also the line feeds among these, shows in nothing but the places of diagnostics and the lines that
these quote.

* `bareItem` takes the place off an item, and off a failure also the line that it shows.
* `map_bareItem_itemsOfLine`: what is left of the items of a line is told by its lexemes.
* `stepsAlike_of_bare`: streams with the same bare items are alike.
* `values_of_same_lexemes` says it for whole runs.
-/

namespace Polish

/-! ## Items without their places -/

def Diagnostic.bare (d : Diagnostic) : Diagnostic where
  cause := d.cause
  note := d.note

def bareItem : Except Failure Token → Except Failure Token
  | .ok token => .ok { token with place := ⟨0, 0, 0⟩ }
  | .error failure => .error (failure.mapDiagnostic .bare)

/-- The bare item of a piece, whatever its columns and its line. -/
def Lexeme.bareItem (l : Lexeme) : Except Failure Token :=
  Polish.bareItem (Piece.item [] 0 ⟨0, l⟩)

def bareEnding (reached : Terminator) : Except Failure Token :=
  .ok (.ofEnding reached ⟨0, 0, 0⟩)

theorem bareItem_item (line : List Char) (n : Nat) (p : Piece) :
    bareItem (p.item line n) = p.lexeme.bareItem := by
  obtain ⟨start, chars | c⟩ := p <;> rfl

theorem bareItem_endingOf (reached : Terminator) (line : List Char) (n : Nat) :
    bareItem (.ok (endingOf reached line n)) = bareEnding reached :=
  rfl

theorem map_bareItem_itemsOfLine (layout : Layout) (n : Nat) (line : List Char) :
    (itemsOfLine layout n line).map bareItem = (lexemes line).map Lexeme.bareItem ++
      if layout = .linewise ∧ line.getLast? = some '\n' then [bareEnding .endOfLine] else [] := by
  have bare : bareItem ∘ Piece.item line n = Lexeme.bareItem ∘ Piece.lexeme :=
    funext fun p => bareItem_item line n p
  rw [itemsOfLine, List.map_append, List.map_map, bare, ← List.map_map, ← lexemes]
  split <;> rfl

/-- Where lines do not count, neither does how the text is cut into lines. -/
theorem map_bareItem_of_freeform (n : Nat) (lines : List (List Char)) :
    (itemsOfLines .freeform n lines).map bareItem = (lines.flatMap lexemes).map Lexeme.bareItem := by
  induction lines generalizing n with
  | nil => rfl
  | cons line lines ih =>
    rw [itemsOfLines, List.map_append, map_bareItem_itemsOfLine, if_neg (by rintro ⟨⟨⟩, -⟩),
      List.append_nil, ih, List.flatMap_cons, List.map_append]

/-- Lines with the same pieces and the same kind of end. -/
def SameLine (line line' : List Char) : Prop :=
  lexemes line = lexemes line' ∧ (line.getLast? = some '\n' ↔ line'.getLast? = some '\n')

theorem map_bareItem_of_sameLines {lines lines' : List (List Char)}
    (same : List.Forall₂ SameLine lines lines') (layout : Layout) (n : Nat) :
    (itemsOfLines layout n lines).map bareItem = (itemsOfLines layout n lines').map bareItem := by
  induction same generalizing n with
  | nil => rfl
  | cons first _ ih =>
    obtain ⟨pieces, ends⟩ := first
    rw [itemsOfLines, itemsOfLines, List.map_append, List.map_append, map_bareItem_itemsOfLine,
      map_bareItem_itemsOfLine, pieces, ih]
    simp only [ends]

/-! ## Streams with the same bare items -/

/-- Diagnostics that differ in nothing but what they point at. -/
def Diagnostic.SaysSame (d d' : Diagnostic) : Prop :=
  d'.cause = d.cause ∧ d'.note = d.note

theorem Failure.alike_of_bare {failure failure' : Failure}
    (same : failure.mapDiagnostic .bare = failure'.mapDiagnostic .bare) :
    failure.Alike Diagnostic.SaysSame failure' := by
  cases failure with
  | malformed d =>
    cases failure' with
    | malformed d' =>
      have bare := Diagnostic.mk.inj (Failure.malformed.inj same)
      exact .malformed ⟨bare.1.symm, bare.2.1.symm⟩
    | io | mismatch => cases same
  | io message =>
    cases failure' with
    | io => cases same; exact .io message
    | malformed | mismatch => cases same
  | mismatch m =>
    cases failure' with
    | mismatch => cases same; exact .mismatch m
    | malformed | io => cases same

namespace TokenStream

variable {s s' : TokenStream}

theorem alike_of_bareItem {result result' : Except Failure Token × TokenStream}
    (same : bareItem result.1 = bareItem result'.1) : Alike Diagnostic.SaysSame result result' := by
  rcases result with ⟨failure | token, s⟩ <;> rcases result' with ⟨failure' | token', s'⟩
  · exact .error (Failure.alike_of_bare (Except.error.inj same))
  · cases same
  · cases same
  · have bare := Token.mk.inj (Except.ok.inj same)
    exact .ok bare.1.symm bare.2.1.symm fun cause => ⟨rfl, rfl⟩

theorem stepsAlike_of_bare (layout : s'.layout = s.layout)
    (same : ∀ n, (s.results n).map bareItem = (s'.results n).map bareItem) :
    StepsAlike Diagnostic.SaysSame s s' where
  layout := layout
  alike n := by
    have upTo := same (n + 1)
    rw [results_succ, results_succ, List.map_append, List.map_append, same n] at upTo
    exact alike_of_bareItem (List.singleton_inj.1 (List.append_cancel_left upTo))

/-- The bare items of a text: those of its lines, and then the end of the input again and again. -/
theorem map_bareItem_results {source : Source} {cs : List Char} (holds : source.Holds cs)
    (layout : Layout) {bare : List (Except Failure Token)}
    (items : (itemsOfLines layout 1 (linesBy '\n' cs)).map bareItem = bare) (n : Nat) :
    ((ofSource layout source).results n).map bareItem =
      (bare ++ List.replicate (n + 1) (bareEnding .endOfInput)).take n := by
  obtain ⟨_, _, results⟩ := results_of_holds holds layout n
  rw [results_eq_take (Nat.le_trans n.le_succ (Nat.le_add_left _ _)), results, List.map_take,
    List.map_append, List.map_replicate, bareItem_endingOf, items]

end TokenStream

/-! ## Whole runs -/

open TokenStream

/-- Sources whose lines have the same bare items give the same. -/
theorem values_of_bare (table : OperatorTable) {layout : Layout} {source source' : Source}
    {cs cs' : List Char} (holds : source.Holds cs) (holds' : source'.Holds cs')
    (same : (itemsOfLines layout 1 (linesBy '\n' cs)).map bareItem =
      (itemsOfLines layout 1 (linesBy '\n' cs')).map bareItem) :
    List.Forall₂ (ResultAlike Diagnostic.SaysSame) (Run.ofSource table layout source).values
      (Run.ofSource table layout source').values := by
  refine values_alike table (stepsAlike_of_bare rfl fun n => ?_)
  rw [map_bareItem_results holds layout same, map_bareItem_results holds' layout rfl]

/-- How a text is laid out makes no difference to what it comes to.
    * The lexemes of a text are what its pieces are made of, in their order: each longest run of visible
      characters, and each character that is neither visible nor blank.
    * Where lines do not count, two texts with the same lexemes give the same values, and failures for
      the same cause with the same note, however blanks part these lexemes and wherever lines end.
    * Where lines count, so do two texts with equally many lines, where each line has the same lexemes
      in both and ends with a line feed in both or in neither. -/
theorem values_of_same_lexemes (table : OperatorTable) {source source' : Source} {cs cs' : List Char}
    (holds : source.Holds cs) (holds' : source'.Holds cs') :
    (∀ text, lexemes text = (pieces text).map Piece.lexeme ∧ (∀ p, p ∈ pieces text ↔ p.IsOf text) ∧
      (pieces text).Pairwise fun p q => p.stop ≤ q.start) ∧
    (lexemes cs = lexemes cs' →
      List.Forall₂ (ResultAlike fun d d' => d'.cause = d.cause ∧ d'.note = d.note)
        (Run.ofSource table .freeform source).values (Run.ofSource table .freeform source').values) ∧
    (List.Forall₂ (fun line line' => lexemes line = lexemes line' ∧
        (line.getLast? = some '\n' ↔ line'.getLast? = some '\n')) (linesBy '\n' cs) (linesBy '\n' cs') →
      List.Forall₂ (ResultAlike fun d d' => d'.cause = d.cause ∧ d'.note = d.note)
        (Run.ofSource table .linewise source).values (Run.ofSource table .linewise source').values) := by
  refine ⟨fun text => ⟨rfl, fun _ => mem_pieces_iff, pairwise_pieces text⟩, fun same => ?_, fun same => ?_⟩
  · apply values_of_bare table holds holds'
    rw [map_bareItem_of_freeform, map_bareItem_of_freeform, flatMap_lexemes_linesBy,
      flatMap_lexemes_linesBy, same]
  · exact values_of_bare table holds holds' (map_bareItem_of_sameLines same .linewise 1)

/-- Two operands on lines of their own with an empty one between them, and next to the operator. -/
theorem values_of_same_lexemes_apart :
    let text := "+ 1 é\n"
    let text' := "\t+\r\n\n 1\n\u00a0é"
    let text'' := "+  1\u00a0é \r\n"
    (Source.ofString text).Holds text.toList ∧ (Source.ofString text').Holds text'.toList ∧
      (Source.ofString text'').Holds text''.toList ∧ lexemes text.toList = lexemes text'.toList ∧
      List.Forall₂ (ResultAlike fun d d' => d'.cause = d.cause ∧ d'.note = d.note)
        (Run.ofSource basicTable .freeform (.ofString text)).values
        (Run.ofSource basicTable .freeform (.ofString text')).values ∧
      List.Forall₂ (ResultAlike fun d d' => d'.cause = d.cause ∧ d'.note = d.note)
        (Run.ofSource basicTable .linewise (.ofString text)).values
        (Run.ofSource basicTable .linewise (.ofString text'')).values := by
  intro text text' text''
  have holds := Source.holds_ofString text
  have holds' := Source.holds_ofString text'
  have holds'' := Source.holds_ofString text''
  have same : lexemes text.toList = lexemes text'.toList := by decide +kernel
  have line : lexemes text.toList = lexemes text''.toList := by decide +kernel
  have lines : linesBy '\n' text.toList = [text.toList] ∧ linesBy '\n' text''.toList = [text''.toList] := by
    decide
  have ends : text.toList.getLast? = some '\n' ∧ text''.toList.getLast? = some '\n' := by decide
  obtain ⟨_, freeform, _⟩ := values_of_same_lexemes basicTable holds holds'
  obtain ⟨_, _, linewise⟩ := values_of_same_lexemes basicTable holds holds''
  refine ⟨holds, holds', holds'', same, freeform same, linewise ?_⟩
  rw [lines.1, lines.2]
  exact .cons ⟨line, iff_of_true ends.1 ends.2⟩ .nil

end Polish
