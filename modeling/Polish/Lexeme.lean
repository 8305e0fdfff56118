import Polish.Text.Blank
import Polish.Text.Offset

/-! # Lexemes

The pieces of a line.  Blanks separate pieces and are dropped; a run of visible characters is a word,
as long as it can be; every other character is a stray piece of its own, even in the middle of a
run.

* `Lexeme.next?` finds the first piece of a text; `eq_append_of_next?` says that the blanks, the
  piece and the rest make up the text.
* `Lexeme.findAt?` finds the first piece behind a byte of a line, and says at which byte it starts.
-/

namespace Polish

inductive Lexeme where
  /-- A longest run of visible characters. -/
  | word (chars : List Char)
  /-- A character that is neither visible nor blank. -/
  | stray (c : Char)
  deriving DecidableEq, Repr

namespace Lexeme

def chars : Lexeme → List Char
  | word chars => chars
  | stray c => [c]

def size (l : Lexeme) : Nat :=
  Text.byteLength l.chars

/-- The first piece of `line`, with the blanks in front of it. -/
def next? (line : List Char) : Option (List Char × Lexeme) :=
  match line.dropWhile Text.isBlank with
  | [] => none
  | c :: rest =>
    let blanks := line.takeWhile Text.isBlank
    if Text.isVisible c then some (blanks, word (c :: rest.takeWhile Text.isVisible))
    else some (blanks, stray c)

/-- The first piece of `line` from the byte `offset` on, with the byte at which it starts. -/
def findAt? (line : List Char) (offset : Nat) : Option (Nat × Lexeme) :=
  (next? (Text.behind line offset)).map fun (blanks, lexeme) =>
    (offset + Text.byteLength blanks, lexeme)

theorem chars_ne_nil_of_next? {line blanks : List Char} {l : Lexeme}
    (h : next? line = some (blanks, l)) : l.chars ≠ [] := by
  rw [next?] at h
  split at h
  · contradiction
  · split at h <;> cases h <;> simp [chars]

theorem eq_append_of_next? {line blanks : List Char} {l : Lexeme}
    (h : next? line = some (blanks, l)) :
    blanks = line.takeWhile Text.isBlank ∧ ∃ rest, line = blanks ++ (l.chars ++ rest) := by
  have split_line := List.takeWhile_append_dropWhile (p := Text.isBlank) (l := line)
  rw [next?] at h
  split at h
  · contradiction
  · next c rest dropped =>
    rw [dropped] at split_line
    split at h <;> cases h
    · refine ⟨rfl, rest.dropWhile Text.isVisible, ?_⟩
      simpa [chars] using split_line.symm
    · exact ⟨rfl, rest, by simpa [chars] using split_line.symm⟩

theorem exists_eq_append_of_findAt? {line : List Char} {offset start : Nat} {l : Lexeme}
    (h : findAt? line offset = some (start, l)) :
    ∃ before blanks rest, next? (Text.behind line offset) = some (blanks, l) ∧
      line = before ++ (blanks ++ (l.chars ++ rest)) ∧ Text.byteLength before = offset ∧
      Text.byteLength (before ++ blanks) = start := by
  obtain ⟨⟨blanks, lexeme⟩, found, same⟩ := Option.map_eq_some_iff.1 h
  cases same
  obtain ⟨_, rest, pieces⟩ := eq_append_of_next? found
  -- something stands behind the offset, and so it is a position
  have nonempty : Text.behind line offset ≠ [] := by
    rw [pieces]
    simp [chars_ne_nil_of_next? found]
  obtain ⟨before, text, size⟩ := Text.exists_eq_append_behind nonempty
  refine ⟨before, blanks, rest, found, ?_, size, ?_⟩
  · rw [← pieces]
    exact text
  · rw [Text.byteLength_append, size]

end Lexeme

end Polish
