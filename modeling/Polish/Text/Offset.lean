import Polish.Text.Utf8

/-! # Byte offsets

A position in a line is kept as the number of bytes in front of it.  Not every number is a position:
an offset may lie past the end of the line, or inside the UTF-8 form of a character.

* `IsBoundary` says that an offset is a position.
* `foldTo?` goes through the characters in front of an offset, if the offset is a position;
  `foldTo?_append` says what it finds there, and `exists_of_foldTo?` that there is no other way.
* `behind` is the text from an offset on, `columnAt` the number of characters in front of it, and
  `slice` the text between two offsets.
-/

namespace Polish.Text

def byteLength (cs : List Char) : Nat :=
  (encode cs).length

@[simp]
theorem byteLength_nil : byteLength [] = 0 := rfl

@[simp]
theorem byteLength_cons (c : Char) (cs : List Char) :
    byteLength (c :: cs) = c.utf8Size + byteLength cs := by
  simp [byteLength, encode]

@[simp]
theorem byteLength_append (first second : List Char) :
    byteLength (first ++ second) = byteLength first + byteLength second := by
  simp [byteLength, encode]

theorem byteLength_pos {cs : List Char} (h : cs ≠ []) : 0 < byteLength cs := by
  cases cs with
  | nil => contradiction
  | cons c cs =>
    have := c.utf8Size_pos
    simp only [byteLength_cons]
    omega

def IsBoundary (line : List Char) (offset : Nat) : Prop :=
  ∃ before behind, line = before ++ behind ∧ byteLength before = offset

section

variable {σ : Type} (step : σ → Char → σ)

/-- Folds `step` over the characters in front of the byte `offset` and gives what stands behind them
    as well; `none` if the offset is no position. -/
@[specialize]
def foldTo? (start : σ) : List Char → Nat → Option (σ × List Char)
  | cs, 0 => some (start, cs)
  | [], _ + 1 => none
  | c :: cs, offset + 1 =>
    if c.utf8Size ≤ offset + 1 then foldTo? (step start c) cs (offset + 1 - c.utf8Size) else none

@[simp]
theorem foldTo?_append (start : σ) (before behind : List Char) :
    foldTo? step start (before ++ behind) (byteLength before) =
      some (before.foldl step start, behind) := by
  induction before generalizing start with
  | nil => simp [foldTo?]
  | cons c before ih =>
    -- in front of a character the offset is positive, which is what the equations ask for
    obtain ⟨offset, size⟩ : ∃ offset, byteLength (c :: before) = offset + 1 :=
      Nat.exists_eq_succ_of_ne_zero (Nat.ne_of_gt (byteLength_pos (List.cons_ne_nil c before)))
    have rest : offset + 1 - c.utf8Size = byteLength before := by
      simp only [byteLength_cons] at size
      omega
    have fits : c.utf8Size ≤ offset + 1 := by
      simp only [byteLength_cons] at size
      omega
    rw [size, List.cons_append, foldTo?, if_pos fits, rest, ih, List.foldl_cons]

theorem exists_of_foldTo? {start final : σ} {line behind : List Char} {offset : Nat}
    (h : foldTo? step start line offset = some (final, behind)) :
    ∃ before, line = before ++ behind ∧ byteLength before = offset := by
  fun_induction foldTo? step start line offset with
  | case1 start cs =>
    cases h
    exact ⟨[], rfl, rfl⟩
  | case2 => contradiction
  | case3 start c cs offset fits ih =>
    obtain ⟨before, rfl, size⟩ := ih h
    refine ⟨c :: before, rfl, ?_⟩
    simp only [byteLength_cons]
    omega
  | case4 => contradiction

end

/-! ## Parts of a line

Each of them is meant for positions only. -/

def behind (line : List Char) (offset : Nat) : List Char :=
  match foldTo? (fun _ _ => ()) () line offset with
  | some (_, behind) => behind
  | none => []

def columnAt (line : List Char) (offset : Nat) : Nat :=
  match foldTo? (fun column _ => column + 1) 0 line offset with
  | some (column, _) => column
  | none => 0

def slice (line : List Char) (start stop : Nat) : List Char :=
  match foldTo? (fun passed c => c :: passed) [] (behind line start) (stop - start) with
  | some (passed, _) => passed.reverse
  | none => []

theorem behind_append (before after : List Char) :
    behind (before ++ after) (byteLength before) = after := by
  simp [behind]

@[simp]
theorem behind_zero (line : List Char) : behind line 0 = line :=
  behind_append [] line

theorem foldl_count (cs : List Char) (column : Nat) :
    cs.foldl (fun column _ => column + 1) column = column + cs.length := by
  induction cs generalizing column with
  | nil => rfl
  | cons c cs ih =>
    rw [List.foldl_cons, ih, List.length_cons]
    omega

theorem columnAt_append (before after : List Char) :
    columnAt (before ++ after) (byteLength before) = before.length := by
  simp only [columnAt, foldTo?_append, foldl_count, Nat.zero_add]

theorem slice_append (before inside after : List Char) :
    slice (before ++ (inside ++ after)) (byteLength before)
      (byteLength before + byteLength inside) = inside := by
  simp [slice, behind_append]

theorem exists_eq_append_behind {line : List Char} {offset : Nat} (h : behind line offset ≠ []) :
    ∃ before, line = before ++ behind line offset ∧ byteLength before = offset := by
  unfold behind at *
  split at *
  · next folded => exact exists_of_foldTo? _ folded
  · contradiction

end Polish.Text
