import Polish.Source

/-! # The lines of a source

The lines of a source are those of its bytes, however these are delivered and whatever failures come
between them.

* `linesBy` cuts a list behind every occurrence of a mark; `linesBy_append` and `linesBy_encode` say
  how it goes along with concatenation and with the UTF-8 form of a text.
* `lines_of_reads`: as long as no read has failed, the reads made are the first lines of the source.
* `reads_of_text`: on a source that holds a text and does not fail they are the lines of the text.
-/

namespace Polish

section

variable {α : Type} [DecidableEq α] {mark : α}

/-- The parts of a list, each up to and including the next occurrence of `mark` or to the end. -/
def linesBy (mark : α) : List α → List (List α)
  | [] => []
  | x :: xs =>
    if x = mark then [x] :: linesBy mark xs
    else
      match linesBy mark xs with
      | [] => [[x]]
      | line :: lines => (x :: line) :: lines

@[simp]
theorem linesBy_nil : linesBy mark [] = [] := rfl

@[simp]
theorem linesBy_mark_cons (xs : List α) : linesBy mark (mark :: xs) = [mark] :: linesBy mark xs := by
  rw [linesBy, if_pos rfl]

theorem linesBy_append {first : List α} (unmarked : mark ∉ first) (some : first ≠ [])
    (rest : List α) :
    linesBy mark (first ++ rest) =
      match linesBy mark rest with
      | [] => [first]
      | line :: lines => (first ++ line) :: lines := by
  induction first with
  | nil => contradiction
  | cons x first ih =>
    obtain ⟨other, unmarked⟩ := not_or.1 (mt List.mem_cons.2 unmarked)
    rw [List.cons_append, linesBy, if_neg (Ne.symm other)]
    cases first with
    | nil => rfl
    | cons y first =>
      rw [ih unmarked (List.cons_ne_nil _ _)]
      cases linesBy mark rest <;> rfl

theorem linesBy_of_not_mem {line : List α} (unmarked : mark ∉ line) (some : line ≠ []) :
    linesBy mark line = [line] := by
  simpa using linesBy_append unmarked some []

theorem linesBy_append_mark {first : List α} (unmarked : mark ∉ first) (rest : List α) :
    linesBy mark (first ++ mark :: rest) = (first ++ [mark]) :: linesBy mark rest := by
  cases first with
  | nil => simp
  | cons x first => rw [linesBy_append unmarked (List.cons_ne_nil _ _), linesBy_mark_cons]

theorem flatten_linesBy (xs : List α) : (linesBy mark xs).flatten = xs := by
  induction xs with
  | nil => rfl
  | cons x xs ih =>
    rw [linesBy]
    split
    · rw [List.flatten_cons, ih, List.singleton_append]
    · split
      · next none =>
        rw [none, List.flatten_nil] at ih
        rw [← ih]
        rfl
      · next line lines some =>
        rw [some, List.flatten_cons] at ih
        rw [List.flatten_cons, List.cons_append, ih]

theorem eq_nil_of_mem_linesBy {xs line before behind : List α} (member : line ∈ linesBy mark xs)
    (split : line = before ++ mark :: behind) : behind = [] := by
  -- the first line is a mark alone, or one element and what was cut as the first line behind it
  induction xs generalizing line before with
  | nil => contradiction
  | cons x xs ih =>
    rw [linesBy] at member
    split at member
    · next same =>
      cases List.mem_cons.1 member with
      | inl first =>
        subst first
        cases before <;> simp_all
      | inr later => exact ih later split
    · next other =>
      split at member
      · obtain rfl := List.mem_singleton.1 member
        cases before <;> simp_all
      · next first lines others =>
        cases List.mem_cons.1 member with
        | inl first =>
          subst first
          cases before with
          | nil => simp_all
          | cons y before =>
            rw [List.cons_append, List.cons.injEq] at split
            exact ih (others ▸ List.mem_cons_self) split.2
        | inr later => exact ih (others ▸ List.mem_cons_of_mem _ later) split

end

/-! ## Lines in bytes -/

namespace Text

/-- The UTF-8 form of a character is its code point, or made of bytes from 128 on. -/
theorem toNat_of_mem_utf8EncodeChar {c : Char} {b : UInt8} (member : b ∈ String.utf8EncodeChar c) :
    b.toNat = c.toNat ∨ 128 ≤ b.toNat := by
  unfold String.utf8EncodeChar at member
  extract_lets v at member
  rw [show c.toNat = v from rfl]
  split at member
  · next small =>
    obtain rfl := List.mem_singleton.1 member
    exact .inl (Nat.mod_eq_of_lt (by omega))
  -- in the longer forms every byte is a remainder on top of 128 or more
  · split at member
    all_goals try split at member
    all_goals
      simp only [List.mem_cons, List.not_mem_nil, or_false, ← UInt8.toNat_inj,
        UInt8.toNat_ofNat'] at member
      omega

theorem lineFeed_mem_utf8EncodeChar {c : Char} :
    Source.lineFeed ∈ String.utf8EncodeChar c ↔ c = '\n' := by
  constructor
  · intro member
    obtain same | large := toNat_of_mem_utf8EncodeChar member
    · exact Char.toNat_inj.1 same.symm
    · contradiction
  · rintro rfl
    decide

theorem encode_cons (c : Char) (cs : List Char) :
    encode (c :: cs) = String.utf8EncodeChar c ++ encode cs :=
  List.flatMap_cons

theorem encode_lineFeed_cons (cs : List Char) : encode ('\n' :: cs) = Source.lineFeed :: encode cs :=
  encode_cons '\n' cs

theorem encode_append (first second : List Char) :
    encode (first ++ second) = encode first ++ encode second :=
  List.flatMap_append

theorem eq_nil_of_encode_eq_nil {cs : List Char} (none : encode cs = []) : cs = [] := by
  cases cs with
  | nil => rfl
  | cons c cs =>
    rw [encode_cons] at none
    exact absurd (List.append_eq_nil_iff.1 none).1 String.utf8EncodeChar_ne_nil

/-- Cutting a text into lines and writing it in bytes can be done in any order. -/
theorem linesBy_encode (cs : List Char) :
    linesBy Source.lineFeed (encode cs) = (linesBy '\n' cs).map encode := by
  induction cs with
  | nil => rfl
  | cons c cs ih =>
    rw [encode_cons]
    by_cases feed : c = '\n'
    · subst feed
      rw [← encode_cons, encode_lineFeed_cons, linesBy_mark_cons, linesBy_mark_cons, ih,
        List.map_cons]
      rfl
    -- the bytes of any other character only lengthen the line behind it
    · rw [linesBy_append (mt lineFeed_mem_utf8EncodeChar.1 feed) String.utf8EncodeChar_ne_nil, ih,
        linesBy, if_neg feed]
      cases linesBy '\n' cs <;> simp [encode]

/-- On a line that is written in bytes nothing stands behind a line feed. -/
theorem eq_nil_of_encode_mem_linesBy {bytes : List UInt8} {line before behind : List Char}
    (member : encode line ∈ linesBy Source.lineFeed bytes) (split : line = before ++ '\n' :: behind) :
    behind = [] := by
  have bytes_eq : encode line = encode before ++ Source.lineFeed :: encode behind := by
    rw [split, encode_append, encode_lineFeed_cons]
  exact eq_nil_of_encode_eq_nil (eq_nil_of_mem_linesBy member bytes_eq)

end Text

/-! ## Lines and reads -/

theorem Read.encode_of_ofBytes {bytes : List UInt8} {text : List Char}
    (line : (Read.ofBytes bytes).outcome = .ok text) : Text.encode text = bytes := by
  rw [Read.ofBytes] at line
  split at line
  · next decoded =>
    cases line
    exact Text.encode_of_decode? decoded
  · cases line

theorem Read.ofBytes_encode (text : List Char) :
    Read.ofBytes (Text.encode text) = ⟨(Text.encode text).length, .ok text⟩ := by
  rw [Read.ofBytes, Text.decode?_encode]

namespace Source

def bytesOf : List Signal → List UInt8
  | [] => []
  | .byte b :: rest => b :: bytesOf rest
  | .failure _ :: rest => bytesOf rest

def bytes (source : Source) : List UInt8 :=
  bytesOf source.signals

def lines (source : Source) : List (List UInt8) :=
  linesBy lineFeed source.bytes

variable {pending : List UInt8} {signals : List Signal} {made unread : List Read}
  {texts : List (List Char)}

theorem eq_nil_of_readsFrom (none : readsFrom pending signals = []) :
    pending = [] ∧ signals = [] := by
  induction signals generalizing pending with
  | nil =>
    rw [readsFrom] at none
    split at none
    · next empty => exact ⟨List.isEmpty_iff.1 empty, rfl⟩
    · cases none
  | cons signal signals ih =>
    cases signal with
    | byte b =>
      rw [readsFrom] at none
      split at none
      · cases none
      · exact absurd (ih none).1 (List.cons_ne_nil _ _)
    | failure message => cases none

/-- The first read, when it gives a text, takes the first line, and the others go on behind it. -/
theorem exists_line_of_readsFrom_cons {read : Read} {others : List Read} {text : List Char}
    (unmarked : lineFeed ∉ pending) (reads : readsFrom pending signals = read :: others)
    (line : read.outcome = .ok text) :
    ∃ rest, others = readsFrom [] rest ∧
      linesBy lineFeed (pending.reverse ++ bytesOf signals) =
        Text.encode text :: linesBy lineFeed (bytesOf rest) := by
  induction signals generalizing pending with
  | nil =>
    rw [readsFrom] at reads
    split at reads
    · cases reads
    · next some =>
      obtain ⟨rfl, rfl⟩ := List.cons.inj reads
      have nonempty : pending.reverse ≠ [] := by simpa using some
      refine ⟨[], rfl, ?_⟩
      rw [bytesOf, List.append_nil, linesBy_of_not_mem (by simpa using unmarked) nonempty,
        Read.encode_of_ofBytes line, linesBy_nil]
  | cons signal signals ih =>
    cases signal with
    | byte b =>
      rw [readsFrom] at reads
      rw [bytesOf]
      split at reads
      · next feed =>
        subst feed
        obtain ⟨rfl, rfl⟩ := List.cons.inj reads
        refine ⟨signals, rfl, ?_⟩
        rw [linesBy_append_mark (by simpa using unmarked), Read.encode_of_ofBytes line,
          List.reverse_cons]
      · next other =>
        have unmarked : lineFeed ∉ b :: pending := by simp [unmarked, Ne.symm other]
        simpa using ih unmarked reads
    | failure message =>
      -- a read that meets a failure gives no text
      rw [readsFrom] at reads
      obtain ⟨rfl, _⟩ := List.cons.inj reads
      cases line

theorem exists_lines_of_readsFrom (reads : readsFrom [] signals = made ++ unread)
    (succeed : made.map Read.outcome = texts.map Except.ok) :
    ∃ later, linesBy lineFeed (bytesOf signals) = texts.map Text.encode ++ later ∧
      (unread = [] → later = []) := by
  induction made generalizing signals texts with
  | nil =>
    obtain rfl := List.map_eq_nil_iff.1 succeed.symm
    refine ⟨_, rfl, fun none => ?_⟩
    rw [none] at reads
    obtain ⟨_, rfl⟩ := eq_nil_of_readsFrom reads
    rfl
  | cons read made ih =>
    obtain ⟨text, texts, rfl, line, others⟩ := List.map_eq_cons_iff.1 succeed.symm
    obtain ⟨rest, behind, lines⟩ :=
      exists_line_of_readsFrom_cons List.not_mem_nil reads line.symm
    obtain ⟨later, same, none⟩ := ih behind.symm others.symm
    rw [List.reverse_nil, List.nil_append] at lines
    refine ⟨later, ?_, none⟩
    rw [lines, same, List.map_cons, List.cons_append]

/-- As long as every read has succeeded, what was read are the first lines of the source. -/
theorem exists_lines_of_reads {source : Source} (reads : source.reads = made ++ unread)
    (succeed : made.map Read.outcome = texts.map Except.ok) :
    ∃ later, source.lines = texts.map Text.encode ++ later ∧ (unread = [] → later = []) :=
  exists_lines_of_readsFrom reads succeed

theorem readsFrom_bytes (unmarked : lineFeed ∉ pending) (bytes : List UInt8) :
    readsFrom pending (bytes.map .byte) =
      (linesBy lineFeed (pending.reverse ++ bytes)).map .ofBytes := by
  induction bytes generalizing pending with
  | nil =>
    rw [List.map_nil, readsFrom, List.append_nil]
    split
    · next empty =>
      rw [List.isEmpty_iff.1 empty]
      rfl
    · next some =>
      have nonempty : pending.reverse ≠ [] := by simpa using some
      rw [linesBy_of_not_mem (by simpa using unmarked) nonempty, List.map_singleton]
  | cons b bytes ih =>
    rw [List.map_cons, readsFrom]
    split
    · next feed =>
      subst feed
      rw [linesBy_append_mark (by simpa using unmarked), ih List.not_mem_nil, List.map_cons,
        List.reverse_cons]
      rfl
    · next other =>
      rw [ih (by simp [unmarked, Ne.symm other]), List.reverse_cons, List.append_assoc,
        List.singleton_append]

/-- The reads of a source that holds a text and never fails are the lines of the text. -/
theorem reads_of_text {source : Source} {cs : List Char}
    (plain : source.signals = (Text.encode cs).map .byte) :
    source.reads =
      (linesBy '\n' cs).map fun line => ⟨(Text.encode line).length, .ok line⟩ := by
  rw [reads, plain, readsFrom_bytes List.not_mem_nil, List.reverse_nil, List.nil_append,
    Text.linesBy_encode, List.map_map]
  exact List.map_congr_left fun line _ => Read.ofBytes_encode line

end Source

end Polish
