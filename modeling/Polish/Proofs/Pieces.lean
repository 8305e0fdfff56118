import Polish.Lexeme

/-! # The pieces of a line

A line is cut into its pieces from the left.  What the pieces are can be said without cutting:
`Piece.IsOf` holds of every longest run of visible characters, and of every character that is neither
visible nor blank.

* `pieces` lists the pieces that `Lexeme.next?` finds, one behind the other.
* `mem_pieces_iff`: these are all the pieces that the line has, and `pairwise_pieces`: each stands
  behind the one before it.
* `stop_ne_start_of_isOf`: two words do not touch.
* `flatMap_chars_pieces`: the pieces hold all characters of the line but its blanks.
-/

namespace Polish

structure Piece where
  start : Nat
  lexeme : Lexeme
  deriving DecidableEq, Repr

namespace Piece

def chars (p : Piece) : List Char :=
  p.lexeme.chars

def stop (p : Piece) : Nat :=
  p.start + p.chars.length

end Piece

theorem Text.isVisible_iff_between {c : Char} : Text.isVisible c = true ↔ '!' ≤ c ∧ c ≤ '~' := by
  simp only [Text.isVisible, Bool.and_eq_true, decide_eq_true_eq]

namespace Lexeme

/-- Whether `l` is a piece when it stands between `before` and `after`: a longest run of visible
    characters, or a character that is neither visible nor blank. -/
def Fits (before : List Char) (l : Lexeme) (after : List Char) : Prop :=
  match l with
  | word chars =>
    chars ≠ [] ∧ (∀ c ∈ chars, Text.isVisible c = true) ∧
      (∀ c ∈ before.getLast?, Text.isVisible c = false) ∧
      ∀ c ∈ after.head?, Text.isVisible c = false
  | stray c => Text.isVisible c = false ∧ Text.isBlank c = false

variable {before after : List Char} {l : Lexeme}

theorem Fits.not_isBlank (fits : Fits before l after) {c : Char} (member : c ∈ l.chars) :
    Text.isBlank c = false := by
  cases l with
  | word chars => exact Text.not_isBlank_of_isVisible (fits.2.1 c member)
  | stray d =>
    obtain rfl := List.mem_singleton.1 member
    exact fits.2

theorem Fits.exists_cons (fits : Fits before l after) :
    ∃ c chars, l.chars = c :: chars ∧ Text.isBlank c = false := by
  have some : l.chars ≠ [] := by
    cases l with
    | word chars => exact fits.1
    | stray c => exact List.cons_ne_nil c []
  obtain ⟨c, chars, first⟩ := List.exists_cons_of_ne_nil some
  exact ⟨c, chars, first, fits.not_isBlank (first ▸ List.mem_cons_self)⟩

end Lexeme

def Piece.IsOf (line : List Char) (p : Piece) : Prop :=
  ∃ before after, line = before ++ (p.chars ++ after) ∧ before.length = p.start ∧
    p.lexeme.Fits before after

theorem drop_take_append (before inside after : List Char) :
    ((before ++ (inside ++ after)).take (before.length + inside.length)).drop before.length =
      inside := by
  rw [← List.append_assoc, ← List.length_append, List.take_left, List.drop_left]

theorem Piece.IsOf.drop_take {line : List Char} {p : Piece} (isOf : p.IsOf line) :
    (line.take p.stop).drop p.start = p.chars := by
  obtain ⟨before, after, rfl, start, _⟩ := isOf
  rw [Piece.stop, ← start, drop_take_append]

/-! ## The first piece -/

/-- No run of visible characters goes on from `before` to `behind`. -/
def Parted (before behind : List Char) : Prop :=
  (∀ c ∈ before.getLast?, Text.isVisible c = false) ∨
    ∀ c ∈ behind.head?, Text.isVisible c = false

theorem Parted.not_isVisible {before blanks rest : List Char} {c d : Char}
    (parted : Parted before (blanks ++ c :: rest))
    (allBlank : ∀ c ∈ blanks, Text.isBlank c = true) (visible : Text.isVisible c = true)
    (last : d ∈ (before ++ blanks).getLast?) : Text.isVisible d = false := by
  rw [List.getLast?_append] at last
  cases end_ : blanks.getLast? with
  | some e =>
    rw [end_, Option.some_or, Option.mem_some_iff] at last
    subst last
    exact Text.not_isVisible_of_isBlank (allBlank _ (List.mem_of_getLast? end_))
  | none =>
    obtain rfl := List.getLast?_eq_none_iff.1 end_
    obtain left | right := parted
    · exact left d (by simpa using last)
    · simp [right c rfl] at visible

namespace Lexeme

theorem isBlank_of_next?_eq_none {line : List Char} (none : next? line = none) {c : Char}
    (member : c ∈ line) : Text.isBlank c = true := by
  have nothing : line.dropWhile Text.isBlank = [] := by
    rw [next?] at none
    split at none
    · assumption
    · split at none <;> contradiction
  rw [← List.takeWhile_append_dropWhile (p := Text.isBlank) (l := line), nothing,
    List.append_nil] at member
  exact List.all_eq_true.1 List.all_takeWhile c member

/-- The piece that is found first stands behind blanks, and it is a piece in any line where no run
    comes from the left. -/
theorem exists_of_next? {line blanks : List Char} {l : Lexeme}
    (found : next? line = some (blanks, l)) :
    ∃ after, line = blanks ++ (l.chars ++ after) ∧ (∀ c ∈ blanks, Text.isBlank c = true) ∧
      ∀ before, Parted before line →
        l.Fits (before ++ blanks) after ∧ Parted (before ++ blanks ++ l.chars) after := by
  have first := List.head?_dropWhile_not Text.isBlank line
  have text := List.takeWhile_append_dropWhile (p := Text.isBlank) (l := line)
  have allBlank : ∀ c ∈ line.takeWhile Text.isBlank, Text.isBlank c = true := fun c member =>
    List.all_eq_true.1 List.all_takeWhile c member
  rw [next?] at found
  split at found
  · contradiction
  · next c rest dropped =>
    rw [dropped] at first text
    split at found
    · next visible =>
      cases found
      -- the run ends where the next character is not visible, or at the end of the line
      have run := List.takeWhile_append_dropWhile (p := Text.isVisible) (l := rest)
      have right : ∀ d ∈ (rest.dropWhile Text.isVisible).head?, Text.isVisible d = false := by
        intro d head
        have stops := List.head?_dropWhile_not Text.isVisible rest
        rwa [head] at stops
      refine ⟨rest.dropWhile Text.isVisible, ?_, allBlank, fun before parted => ⟨?_, .inr right⟩⟩
      · rw [chars, List.cons_append, run, text]
      · rw [← text] at parted
        refine ⟨List.cons_ne_nil _ _, fun d member => ?_,
          fun d last => parted.not_isVisible allBlank visible last, right⟩
        cases List.mem_cons.1 member with
        | inl same => rw [same, visible]
        | inr inside => exact List.all_eq_true.1 List.all_takeWhile d inside
    · next invisible =>
      cases found
      refine ⟨rest, text.symm, allBlank, fun before parted => ⟨?_, .inl ?_⟩⟩
      · exact ⟨by simpa using invisible, first⟩
      · simpa [chars] using invisible

variable {before after : List Char} {l : Lexeme}

theorem fits_of_next? {blanks : List Char}
    (found : next? (blanks ++ (l.chars ++ after)) = some (blanks, l)) :
    (∀ c ∈ blanks, Text.isBlank c = true) ∧
      ∀ before, Parted before (blanks ++ (l.chars ++ after)) →
        l.Fits (before ++ blanks) after ∧ Parted (before ++ blanks ++ l.chars) after := by
  obtain ⟨_, text, allBlank, piece⟩ := exists_of_next? found
  obtain rfl := List.append_cancel_left (List.append_cancel_left text)
  exact ⟨allBlank, piece⟩

theorem Fits.takeWhile_isVisible {chars : List Char} (fits : (word chars).Fits before after) :
    (chars ++ after).takeWhile Text.isVisible = chars := by
  obtain ⟨_, visible, _, right⟩ := fits
  rw [List.takeWhile_append_of_pos visible]
  cases after with
  | nil => simp
  | cons c after => simp [right c rfl]

theorem Fits.ne_stray {before' after' chars : List Char} {c : Char}
    (run : (word chars).Fits before after) (single : (stray c).Fits before' after') :
    chars ++ after ≠ c :: after' := by
  obtain ⟨d, chars, rfl⟩ := List.exists_cons_of_ne_nil run.1
  intro same
  obtain ⟨rfl, _⟩ := List.cons.inj same
  have visible := run.2.1 d List.mem_cons_self
  rw [single.1] at visible
  contradiction

theorem Fits.unique {before' after' : List Char} {l' : Lexeme} (first : l.Fits before after)
    (second : l'.Fits before' after') (same : l.chars ++ after = l'.chars ++ after') : l = l' := by
  cases l with
  | word chars =>
    cases l' with
    | word chars' =>
      rw [← first.takeWhile_isVisible, ← second.takeWhile_isVisible]
      exact congrArg (fun text => word (text.takeWhile Text.isVisible)) same
    | stray c => exact absurd same (first.ne_stray second)
  | stray c =>
    cases l' with
    | word chars' => exact absurd same.symm (second.ne_stray first)
    | stray c' =>
      obtain ⟨rfl, _⟩ := List.cons.inj same
      rfl

/-- No piece starts inside another one. -/
theorem Fits.eq_nil_of_split {before' after' inside behind : List Char} {l' : Lexeme}
    (fits : l.Fits before after) (split : l.chars = inside ++ behind)
    (other : l'.Fits (before' ++ inside) after') (same : l'.chars ++ after' = behind ++ after) :
    inside = [] ∨ behind = [] := by
  by_cases some : inside = []
  · exact .inl some
  cases behind with
  | nil => exact .inr rfl
  | cons c behind =>
    exfalso
    -- a stray is too short to be split, and in a word neither a word nor a stray can start anew
    cases l with
    | stray d =>
      have length := congrArg List.length split
      have := List.length_pos_iff.2 some
      simp only [chars, List.length_append, List.length_cons, List.length_nil] at length
      omega
    | word run =>
      have split : run = inside ++ c :: behind := split
      obtain ⟨_, visible, _, _⟩ := fits
      have before := visible _ (split ▸ List.mem_append_left _ (List.getLast_mem some))
      have next := visible c (split ▸ List.mem_append_right _ List.mem_cons_self)
      cases l' with
      | word run' =>
        have invisible := other.2.2.1 (inside.getLast some)
          (by simp [List.getLast?_append, List.getLast?_eq_some_getLast some])
        rw [before] at invisible
        contradiction
      | stray d =>
        obtain ⟨rfl, _⟩ := List.cons.inj same
        rw [other.1] at next
        contradiction

/-- Of the pieces of a text the first is the one behind the blanks. -/
theorem Fits.eq_or_behind {blanks gap after' : List Char} {l' : Lexeme}
    (first : l.Fits (before ++ blanks) after) (other : l'.Fits (before ++ gap) after')
    (allBlank : ∀ c ∈ blanks, Text.isBlank c = true)
    (text : blanks ++ (l.chars ++ after) = gap ++ (l'.chars ++ after')) :
    (gap = blanks ∧ l' = l) ∨
      ∃ behind, gap = blanks ++ l.chars ++ behind ∧ after = behind ++ (l'.chars ++ after') := by
  -- the other piece starts behind the blanks or among them, and then behind the first piece or in it
  obtain ⟨inside, rfl, same⟩ | ⟨gone, rfl, same⟩ := List.append_eq_append_iff.1 text
  · obtain ⟨behind, rfl, rest⟩ | ⟨behind, split, rest⟩ := List.append_eq_append_iff.1 same
    · exact .inr ⟨behind, (List.append_assoc _ _ _).symm, rest⟩
    · rw [← List.append_assoc] at other
      obtain rfl | rfl := first.eq_nil_of_split split other rest
      · rw [List.nil_append] at split
        exact .inl ⟨List.append_nil _, other.unique first (split ▸ rest)⟩
      · rw [List.append_nil] at split
        exact .inr ⟨[], by simp [split], rest.symm⟩
  · cases gone with
    | nil => exact .inl ⟨(List.append_nil _).symm, other.unique first same⟩
    | cons c gone =>
      obtain ⟨d, chars, start, solid⟩ := other.exists_cons
      rw [start] at same
      obtain ⟨rfl, _⟩ := List.cons.inj same
      rw [allBlank d (by simp)] at solid
      contradiction

end Lexeme

/-! ## All pieces -/

def piecesFrom (column : Nat) (rest : List Char) : List Piece :=
  match _found : Lexeme.next? rest with
  | none => []
  | some (blanks, l) =>
    ⟨column + blanks.length, l⟩ ::
      piecesFrom (column + blanks.length + l.chars.length)
        (rest.drop (blanks.length + l.chars.length))
termination_by rest.length
decreasing_by
  have piece := List.length_pos_iff.2 (Lexeme.chars_ne_nil_of_next? _found)
  obtain ⟨_, after, text⟩ := Lexeme.eq_append_of_next? _found
  have length := congrArg List.length text
  simp only [List.length_append, List.length_drop] at length ⊢
  omega

def pieces (line : List Char) : List Piece :=
  piecesFrom 0 line

theorem piecesFrom_of_none {column : Nat} {rest : List Char} (none : Lexeme.next? rest = none) :
    piecesFrom column rest = [] := by
  rw [piecesFrom]
  split
  · rfl
  · next some => rw [none] at some; contradiction

theorem piecesFrom_of_found {blanks after : List Char} {l : Lexeme}
    (found : Lexeme.next? (blanks ++ (l.chars ++ after)) = some (blanks, l)) (before : List Char) :
    piecesFrom before.length (blanks ++ (l.chars ++ after)) =
      ⟨(before ++ blanks).length, l⟩ :: piecesFrom (before ++ blanks ++ l.chars).length after := by
  rw [piecesFrom]
  split
  · next none => rw [found] at none; contradiction
  · next same =>
    rw [found] at same
    cases same
    simp only [← List.append_assoc, ← List.length_append, List.drop_left]

/-- A line is cut piece by piece: `rest` holds none, or it is blanks, a piece and what stands
    behind. -/
theorem cut_induction {motive : List Char → List Char → Prop}
    (ends : ∀ before rest, Lexeme.next? rest = none → motive before rest)
    (goesOn : ∀ before blanks l after,
      Lexeme.next? (blanks ++ (l.chars ++ after)) = some (blanks, l) →
      motive (before ++ blanks ++ l.chars) after → motive before (blanks ++ (l.chars ++ after)))
    (before rest : List Char) : motive before rest := by
  induction length : rest.length using Nat.strongRecOn generalizing before rest with
  | ind n ih =>
    cases found : Lexeme.next? rest with
    | none => exact ends before rest found
    | some piece =>
      obtain ⟨blanks, l⟩ := piece
      have nonempty := List.length_pos_iff.2 (Lexeme.chars_ne_nil_of_next? found)
      obtain ⟨_, after, rfl⟩ := Lexeme.eq_append_of_next? found
      refine goesOn before blanks l after found (ih after.length ?_ _ after rfl)
      simp only [List.length_append] at length
      omega

theorem isOf_of_mem_piecesFrom {before rest : List Char} (parted : Parted before rest) {p : Piece}
    (member : p ∈ piecesFrom before.length rest) : p.IsOf (before ++ rest) := by
  -- that no run comes from the left holds again behind every piece
  induction before, rest using cut_induction with
  | ends before rest none =>
    rw [piecesFrom_of_none none] at member
    contradiction
  | goesOn before blanks l after found ih =>
    obtain ⟨_, piece⟩ := Lexeme.fits_of_next? found
    obtain ⟨fits, parted⟩ := piece before parted
    rw [piecesFrom_of_found found] at member
    cases List.mem_cons.1 member with
    | inl first =>
      subst first
      exact ⟨before ++ blanks, after, by simp [Piece.chars], rfl, fits⟩
    | inr later => simpa using ih parted later

theorem mem_piecesFrom (before : List Char) {rest gap after : List Char} {l : Lexeme}
    (text : rest = gap ++ (l.chars ++ after)) (fits : l.Fits (before ++ gap) after)
    (parted : Parted before rest) :
    ⟨(before ++ gap).length, l⟩ ∈ piecesFrom before.length rest := by
  induction before, rest using cut_induction generalizing gap with
  | ends before rest none =>
    obtain ⟨c, chars, first, solid⟩ := fits.exists_cons
    have blank := Lexeme.isBlank_of_next?_eq_none none (c := c) (by simp [text, first])
    rw [solid] at blank
    contradiction
  | goesOn before blanks l₁ after₁ found ih =>
    obtain ⟨allBlank, piece⟩ := Lexeme.fits_of_next? found
    obtain ⟨fits₁, parted₁⟩ := piece before parted
    rw [piecesFrom_of_found found]
    obtain ⟨rfl, rfl⟩ | ⟨behind, rfl, others⟩ := fits₁.eq_or_behind fits allBlank text
    · exact List.mem_cons_self
    · refine List.mem_cons_of_mem _ ?_
      simpa using ih others (by simpa using fits) parted₁

theorem parted_nil (line : List Char) : Parted [] line :=
  .inl nofun

theorem mem_pieces_iff {line : List Char} {p : Piece} : p ∈ pieces line ↔ p.IsOf line := by
  constructor
  · exact fun member => isOf_of_mem_piecesFrom (parted_nil line) member
  · rintro ⟨before, after, text, start, fits⟩
    have := mem_piecesFrom [] text fits (parted_nil line)
    rwa [List.nil_append, start] at this

theorem le_start_of_mem_piecesFrom {before rest : List Char} {p : Piece}
    (member : p ∈ piecesFrom before.length rest) : before.length ≤ p.start := by
  induction before, rest using cut_induction with
  | ends before rest none =>
    rw [piecesFrom_of_none none] at member
    contradiction
  | goesOn before blanks l after found ih =>
    rw [piecesFrom_of_found found] at member
    cases List.mem_cons.1 member with
    | inl first =>
      subst first
      simp
    | inr later =>
      have le := ih later
      simp only [List.length_append] at le
      omega

theorem pairwise_pieces (line : List Char) :
    (pieces line).Pairwise fun p q => p.stop ≤ q.start := by
  suffices h : ∀ before rest : List Char,
      (piecesFrom before.length rest).Pairwise fun p q => p.stop ≤ q.start from h [] line
  intro before rest
  induction before, rest using cut_induction with
  | ends before rest none =>
    rw [piecesFrom_of_none none]
    exact .nil
  | goesOn before blanks l after found ih =>
    rw [piecesFrom_of_found found]
    refine List.pairwise_cons.2 ⟨fun q member => ?_, ih⟩
    have le := le_start_of_mem_piecesFrom member
    rwa [List.length_append] at le

theorem stop_ne_start_of_isOf {line first second : List Char} {start start' : Nat}
    (isOf : Piece.IsOf line ⟨start, .word first⟩) (isOf' : Piece.IsOf line ⟨start', .word second⟩) :
    start + first.length ≠ start' := by
  obtain ⟨before, after, text, rfl, _, _, _, right⟩ := isOf
  obtain ⟨before', after', text', rfl, some, visible, _, _⟩ := isOf'
  intro touch
  rw [text, ← List.append_assoc] at text'
  -- the second word would go on with what stands behind the first, which is not visible
  obtain ⟨_, rfl⟩ := List.append_inj text' (by simpa [Piece.chars, Lexeme.chars] using touch)
  obtain ⟨c, second, rfl⟩ := List.exists_cons_of_ne_nil some
  have invisible := right c rfl
  rw [visible c List.mem_cons_self] at invisible
  contradiction

theorem flatMap_chars_pieces (line : List Char) :
    (pieces line).flatMap Piece.chars = line.filter fun c => !Text.isBlank c := by
  suffices h : ∀ before rest : List Char, (piecesFrom before.length rest).flatMap Piece.chars =
      rest.filter fun c => !Text.isBlank c from h [] line
  intro before rest
  induction before, rest using cut_induction with
  | ends before rest none =>
    rw [piecesFrom_of_none none, List.flatMap_nil, eq_comm, List.filter_eq_nil_iff]
    intro c member
    simp [Lexeme.isBlank_of_next?_eq_none none member]
  | goesOn before blanks l after found ih =>
    obtain ⟨allBlank, piece⟩ := Lexeme.fits_of_next? found
    obtain ⟨fits, _⟩ := piece [] (parted_nil _)
    have dropped : blanks.filter (fun c => !Text.isBlank c) = [] :=
      List.filter_eq_nil_iff.2 fun c member => by simp [allBlank c member]
    have kept : l.chars.filter (fun c => !Text.isBlank c) = l.chars :=
      List.filter_eq_self.2 fun c member => by simp [fits.not_isBlank member]
    rw [piecesFrom_of_found found, List.flatMap_cons, ih, List.filter_append, List.filter_append,
      dropped, kept, List.nil_append, Piece.chars]

end Polish
