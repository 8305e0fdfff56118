import Polish.Proofs.LineForms
import Polish.Proofs.Lines

/-! # Words with blanks between them

Blanks do nothing but part the pieces of a text: how many there are, which they are and where the
lines end makes no difference to what the pieces are made of.

* `lexemes` lists the pieces of a text without their columns, and `lexemes_of_fits` takes off the first.
* `lexemes_append` and `flatMap_lexemes_linesBy`: behind a blank, and so into lines, a text can be cut.
* `Spaced` says that a text is words with blanks between them, and `lexemes_of_spaced` that its pieces
  are these words.
-/

namespace Polish

/-! ## The pieces without their columns -/

def lexemes (cs : List Char) : List Lexeme :=
  (pieces cs).map Piece.lexeme

namespace Lexeme

variable {blanks after : List Char} {l : Lexeme}

/-- Behind blanks the first piece is the one that fits there. -/
theorem next?_of_fits (allBlank : ∀ c ∈ blanks, Text.isBlank c = true) (fits : l.Fits blanks after) :
    next? (blanks ++ (l.chars ++ after)) = some (blanks, l) := by
  obtain ⟨c, chars, first, solid⟩ := fits.exists_cons
  have dropped : (blanks ++ (l.chars ++ after)).dropWhile Text.isBlank = c :: (chars ++ after) := by
    rw [List.dropWhile_append_of_pos allBlank, first, List.cons_append,
      List.dropWhile_cons_of_neg (by simp [solid])]
  have taken : (blanks ++ (l.chars ++ after)).takeWhile Text.isBlank = blanks := by
    rw [List.takeWhile_append_of_pos allBlank, first, List.cons_append,
      List.takeWhile_cons_of_neg (by simp [solid]), List.append_nil]
  simp only [next?, dropped, taken]
  cases l with
  | word run =>
    have run_eq : run = c :: chars := first
    have visible := fits.2.1 c (run_eq ▸ List.mem_cons_self)
    have whole := fits.takeWhile_isVisible
    rw [run_eq, List.cons_append, List.takeWhile_cons_of_pos visible] at whole
    rw [if_pos visible, run_eq, whole]
  | stray d =>
    obtain ⟨rfl, rfl⟩ := List.cons.inj first
    rw [if_neg (by simp [fits.1])]

theorem Fits.append {before : List Char} (fits : l.Fits before after) (more : after ≠ [])
    (rest : List Char) : l.Fits before (after ++ rest) := by
  cases l with
  | stray c => exact fits
  | word chars =>
    obtain ⟨some, visible, left, right⟩ := fits
    refine ⟨some, visible, left, ?_⟩
    rwa [List.head?_append_of_ne_nil _ more]

theorem next?_of_blank {cs : List Char} (blank : ∀ c ∈ cs, Text.isBlank c = true) :
    next? cs = none := by
  have nothing : cs.dropWhile Text.isBlank = [] := by
    rw [← List.append_nil cs, List.dropWhile_append_of_pos blank, List.dropWhile_nil]
  rw [next?, nothing]

theorem Fits.append_blank {before gap : List Char} (fits : l.Fits before after)
    (allBlank : ∀ c ∈ gap, Text.isBlank c = true) : l.Fits before (after ++ gap) := by
  cases after with
  | cons c after => exact fits.append (List.cons_ne_nil _ _) gap
  | nil =>
    cases l with
    | stray c => exact fits
    | word chars =>
      obtain ⟨some, visible, left, _⟩ := fits
      exact ⟨some, visible, left, fun c first =>
        Text.not_isVisible_of_isBlank (allBlank c (List.mem_of_mem_head? first))⟩

end Lexeme

theorem map_lexeme_piecesFrom (before before' rest : List Char) :
    (piecesFrom before.length rest).map Piece.lexeme =
      (piecesFrom before'.length rest).map Piece.lexeme := by
  induction before, rest using cut_induction generalizing before' with
  | ends before rest none => rw [piecesFrom_of_none none, piecesFrom_of_none none]
  | goesOn before blanks l after found ih =>
    rw [piecesFrom_of_found found, piecesFrom_of_found found, List.map_cons, List.map_cons, ih]

theorem lexemes_of_found {blanks after : List Char} {l : Lexeme}
    (found : Lexeme.next? (blanks ++ (l.chars ++ after)) = some (blanks, l)) :
    lexemes (blanks ++ (l.chars ++ after)) = l :: lexemes after := by
  have first := piecesFrom_of_found found []
  rw [lexemes, pieces, ← List.length_nil (α := Char), first, List.map_cons,
    map_lexeme_piecesFrom _ [] after]
  rfl

theorem lexemes_of_fits {blanks after : List Char} {l : Lexeme}
    (allBlank : ∀ c ∈ blanks, Text.isBlank c = true) (fits : l.Fits blanks after) :
    lexemes (blanks ++ (l.chars ++ after)) = l :: lexemes after :=
  lexemes_of_found (Lexeme.next?_of_fits allBlank fits)

theorem lexemes_of_blank {cs : List Char} (blank : ∀ c ∈ cs, Text.isBlank c = true) :
    lexemes cs = [] := by
  rw [lexemes, pieces_eq_nil_iff.2 blank, List.map_nil]

/-! ## Cutting a text -/

theorem lexemes_blank_append {gap : List Char} (allBlank : ∀ c ∈ gap, Text.isBlank c = true)
    (rest : List Char) : lexemes (gap ++ rest) = lexemes rest := by
  cases found : Lexeme.next? rest with
  | none =>
    have blank (c : Char) (member : c ∈ rest) := Lexeme.isBlank_of_next?_eq_none found member
    rw [lexemes_of_blank blank, lexemes_of_blank (List.forall_mem_append.2 ⟨allBlank, blank⟩)]
  | some piece =>
    obtain ⟨blanks, l⟩ := piece
    obtain ⟨after, rfl, blank, fits⟩ := Lexeme.exists_of_next? found
    have parted : Parted gap (blanks ++ (l.chars ++ after)) := .inl fun c last =>
      Text.not_isVisible_of_isBlank (allBlank c (List.mem_of_getLast? last))
    rw [lexemes_of_found found, ← List.append_assoc,
      lexemes_of_fits (List.forall_mem_append.2 ⟨allBlank, blank⟩) (fits gap parted).1]

theorem piecesFrom_append_blank {gap : List Char} (allBlank : ∀ c ∈ gap, Text.isBlank c = true)
    (before rest : List Char) : piecesFrom before.length (rest ++ gap) = piecesFrom before.length rest := by
  induction before, rest using cut_induction with
  | ends before rest none =>
    have blank (c : Char) (member : c ∈ rest) := Lexeme.isBlank_of_next?_eq_none none member
    rw [piecesFrom_of_none none, piecesFrom_of_none
      (Lexeme.next?_of_blank (List.forall_mem_append.2 ⟨blank, allBlank⟩))]
  | goesOn before blanks l after found ih =>
    obtain ⟨blank, piece⟩ := Lexeme.fits_of_next? found
    have fits : l.Fits blanks after := (piece [] (parted_nil _)).1
    rw [piecesFrom_of_found found, List.append_assoc, List.append_assoc,
      piecesFrom_of_found (Lexeme.next?_of_fits blank (fits.append_blank allBlank)), ih]

theorem pieces_append_blank {gap : List Char} (allBlank : ∀ c ∈ gap, Text.isBlank c = true)
    (cs : List Char) : pieces (cs ++ gap) = pieces cs :=
  piecesFrom_append_blank allBlank [] cs

/-- A text of visible characters is one word. -/
theorem pieces_of_visible {chars : List Char} (some : chars ≠ [])
    (visible : ∀ c ∈ chars, Text.isVisible c = true) : pieces chars = [⟨0, .word chars⟩] := by
  have fits : (Lexeme.word chars).Fits [] [] := ⟨some, visible, nofun, nofun⟩
  have nothing : ∀ c ∈ ([] : List Char), Text.isBlank c = true := List.forall_mem_nil _
  have found := piecesFrom_of_found (Lexeme.next?_of_fits nothing fits) []
  rw [piecesFrom_of_none (Lexeme.next?_of_blank nothing)] at found
  simp only [Lexeme.chars, List.append_nil, List.nil_append] at found
  exact found

/-- Behind a blank no piece goes on. -/
theorem lexemes_append {first : List Char} (closed : ∀ c ∈ first.getLast?, Text.isBlank c = true)
    (rest : List Char) : lexemes (first ++ rest) = lexemes first ++ lexemes rest := by
  suffices h : ∀ before first : List Char, (∀ c ∈ first.getLast?, Text.isBlank c = true) →
      lexemes (first ++ rest) = lexemes first ++ lexemes rest from h [] first closed
  intro before first closed
  induction before, first using cut_induction with
  | ends before first none =>
    have blank (c : Char) (member : c ∈ first) := Lexeme.isBlank_of_next?_eq_none none member
    rw [lexemes_blank_append blank, lexemes_of_blank blank, List.nil_append]
  | goesOn before blanks l after found ih =>
    obtain ⟨allBlank, piece⟩ := Lexeme.fits_of_next? found
    have fits : l.Fits blanks after := (piece [] (parted_nil _)).1
    -- the last character of a text that ends with the piece would be one of the piece, and no blank
    have more : after ≠ [] := by
      rintro rfl
      have some := Lexeme.chars_ne_nil_of_next? found
      have blank := closed (l.chars.getLast some) (by
        rw [List.append_nil, List.getLast?_append_of_ne_nil _ some, List.getLast?_eq_some_getLast some]
        exact rfl)
      rw [fits.not_isBlank (List.getLast_mem some)] at blank
      contradiction
    have closed' (c : Char) (last : c ∈ after.getLast?) : Text.isBlank c = true :=
      closed c (by
        rw [← List.append_assoc, List.getLast?_append_of_ne_nil _ more]
        exact last)
    rw [lexemes_of_found found, List.append_assoc, List.append_assoc,
      lexemes_of_fits allBlank (fits.append more rest), ih closed', List.cons_append]

/-- Where the lines end makes no difference. -/
theorem flatMap_lexemes_linesBy (cs : List Char) :
    (linesBy '\n' cs).flatMap lexemes = lexemes cs := by
  induction length : cs.length using Nat.strongRecOn generalizing cs with
  | ind n ih =>
    by_cases feed : '\n' ∈ cs
    · obtain ⟨first, rest, rfl, unmarked⟩ := List.eq_append_cons_of_mem feed
      have less : rest.length < n := by
        rw [← length, List.length_append, List.length_cons]
        omega
      have closed : ∀ c ∈ (first ++ ['\n']).getLast?, Text.isBlank c = true := by
        rw [List.getLast?_concat]
        rintro c ⟨⟩
        decide
      rw [linesBy_append_mark unmarked, List.flatMap_cons, ih _ less rest rfl, ← lexemes_append closed,
        List.append_assoc, List.singleton_append]
    · cases cs with
      | nil => rw [linesBy_nil, List.flatMap_nil, lexemes_of_blank (by simp)]
      | cons c cs => rw [linesBy_of_not_mem feed (List.cons_ne_nil _ _), List.flatMap_singleton]

/-! ## Words with blanks between them -/

/-- The text is the words from the left, with blanks between any two of them, and with or without
    blanks in front of them and behind. -/
inductive Spaced : List (List Char) → List Char → Prop where
  | blank {gap : List Char} (allBlank : ∀ c ∈ gap, Text.isBlank c = true) : Spaced [] gap
  | word {gap word rest : List Char} {words : List (List Char)}
      (allBlank : ∀ c ∈ gap, Text.isBlank c = true) (others : Spaced words rest)
      (parted : words ≠ [] → ∃ c ∈ rest.head?, Text.isBlank c = true) :
      Spaced (word :: words) (gap ++ (word ++ rest))

/-- Where all words are visible they are the pieces of the text. -/
theorem lexemes_of_spaced {words : List (List Char)} {cs : List Char} (spaced : Spaced words cs)
    (solid : ∀ word ∈ words, word ≠ [] ∧ ∀ c ∈ word, Text.isVisible c = true) :
    lexemes cs = words.map .word := by
  induction spaced with
  | blank allBlank => rw [lexemes_of_blank allBlank, List.map_nil]
  | @word gap word rest words allBlank others parted ih =>
    obtain ⟨some, visible⟩ := solid word List.mem_cons_self
    have before (c : Char) (last : c ∈ gap.getLast?) : Text.isVisible c = false :=
      Text.not_isVisible_of_isBlank (allBlank c (List.mem_of_getLast? last))
    have behind (c : Char) (first : c ∈ rest.head?) : Text.isVisible c = false := by
      apply Text.not_isVisible_of_isBlank
      cases others with
      | blank allBlank => exact allBlank c (List.mem_of_mem_head? first)
      | word =>
        obtain ⟨d, first', blank⟩ := parted (List.cons_ne_nil _ _)
        exact Option.mem_unique first first' ▸ blank
    have fits : (Lexeme.word word).Fits gap rest := ⟨some, visible, before, behind⟩
    rw [List.map_cons, ← ih fun word member => solid word (List.mem_cons_of_mem _ member)]
    exact lexemes_of_fits allBlank fits

end Polish
