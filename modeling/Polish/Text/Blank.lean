import Polish.Text.Ranges

/-! # Blank characters

The characters that separate words: those with the Unicode property White_Space.  The class is
wider than the ASCII blanks (it holds the no-break space and the ideographic space), and narrower
than "invisible": the zero width space U+200B and the byte order mark U+FEFF are not in it.

* `isBlank` is the class, `isVisible` the class of the printing ASCII characters `!` to `~`.
* `not_isBlank_of_isVisible` says that no character is both.
* `exists_trimmed` says what it is to drop the characters of one kind at the end of a text, and
  `trimEnd` drops the blanks.
-/

namespace Polish.Text

/-- Code points with the property White_Space. -/
def whiteSpace : Ranges :=
  [(0x9, 0xD), (0x20, 0x20), (0x85, 0x85), (0xA0, 0xA0), (0x1680, 0x1680), (0x2000, 0x200A),
   (0x2028, 0x2029), (0x202F, 0x202F), (0x205F, 0x205F), (0x3000, 0x3000)]

def isBlank (c : Char) : Bool :=
  whiteSpace.contains c

def isVisible (c : Char) : Bool :=
  '!' ≤ c && c ≤ '~'

def trimEnd (s : List Char) : List Char :=
  (s.reverse.dropWhile isBlank).reverse

theorem isVisible_iff {c : Char} : isVisible c = true ↔ 0x21 ≤ c.toNat ∧ c.toNat ≤ 0x7E := by
  simp only [isVisible, Bool.and_eq_true, decide_eq_true_eq]
  exact Iff.rfl

/-- A visible character lies strictly between the plain space and U+0085, where no blank is. -/
theorem not_isBlank_of_isVisible {c : Char} (h : isVisible c = true) : isBlank c = false := by
  have h := isVisible_iff.1 h
  -- one interval after the other
  simp [isBlank, Ranges.contains, whiteSpace]
  omega

theorem not_isVisible_of_isBlank {c : Char} (h : isBlank c = true) : isVisible c = false := by
  cases visible : isVisible c with
  | false => rfl
  | true => rw [not_isBlank_of_isVisible visible] at h; contradiction

/-! ## Trimming -/

section Trimming

variable {p : Char → Bool} {cs : List Char}

theorem dropWhile_reverse_append {ending : List Char} (all : ∀ c ∈ ending, p c = true) :
    (cs ++ ending).reverse.dropWhile p = cs.reverse.dropWhile p := by
  rw [List.reverse_append,
    List.dropWhile_append_of_pos fun c member => all c (List.mem_reverse.1 member)]

theorem dropWhile_reverse_of_getLast? (last : ∀ c ∈ cs.getLast?, p c = false) :
    cs.reverse.dropWhile p = cs.reverse := by
  rw [List.getLast?_eq_head?_reverse] at last
  cases reversed : cs.reverse with
  | nil => rfl
  | cons c others => simp [last c (by simp [reversed])]

/-- Only characters of the kind are trimmed, and all of them. -/
theorem exists_trimmed (p : Char → Bool) (cs : List Char) :
    (∃ ending, cs = (cs.reverse.dropWhile p).reverse ++ ending ∧ ∀ c ∈ ending, p c = true) ∧
      ∀ c ∈ (cs.reverse.dropWhile p).reverse.getLast?, p c = false := by
  refine ⟨⟨(cs.reverse.takeWhile p).reverse, ?_, fun c member => ?_⟩, fun c last => ?_⟩
  · rw [← List.reverse_append, List.takeWhile_append_dropWhile, List.reverse_reverse]
  · exact List.all_eq_true.1 List.all_takeWhile c (List.mem_reverse.1 member)
  · have first := List.head?_dropWhile_not p cs.reverse
    rw [List.getLast?_reverse] at last
    rwa [last] at first

end Trimming

theorem exists_eq_trimEnd_append (s : List Char) :
    (∃ blanks, s = trimEnd s ++ blanks ∧ ∀ c ∈ blanks, isBlank c = true) ∧
      ∀ c ∈ (trimEnd s).getLast?, isBlank c = false :=
  exists_trimmed isBlank s

theorem trimEnd_append_blank {gap : List Char} (allBlank : ∀ c ∈ gap, isBlank c = true)
    (cs : List Char) : trimEnd (cs ++ gap) = trimEnd cs := by
  rw [trimEnd, dropWhile_reverse_append allBlank, trimEnd]

theorem exists_trimEnd_append {first : List Char} (solid : ∀ c ∈ first.getLast?, isBlank c = false)
    (rest : List Char) : ∃ kept, trimEnd (first ++ rest) = first ++ kept := by
  -- from the right the blanks of `first ++ rest` end at the latest where `first` begins
  rw [trimEnd, List.reverse_append, List.dropWhile_append, dropWhile_reverse_of_getLast? solid]
  split
  · exact ⟨[], by simp⟩
  · exact ⟨_, by rw [List.reverse_append, List.reverse_reverse]⟩

end Polish.Text
