import Polish.Proofs.LayoutRefinement
import Polish.Proofs.Recovery

/-! # The ends of lines among the items

Where lines count a stream gives the items that it gives where line feeds are blanks, and the ends of
its lines among them.

* `filter_results`: without the ends of lines the items of a stream are those of the stream made `free`.
* `exists_filter_eq`: no item of the free stream is left out, however many ends of lines stand in front
  of it.
* `filter_isLineEnd_itemsOfReads`: the ends of lines are those of the lines that a line feed ends, in
  their order.
* `line_ends_among_items` says for a whole source which items these are and where each of them stands.
-/

namespace Polish

namespace TokenStream

instance : DecidablePred IsLineEnd
  | .error _ => .isFalse not_isLineEnd_error
  | .ok ⟨.ending .endOfLine, _, _⟩ => .isTrue ⟨_, rfl, rfl⟩
  | .ok ⟨.ending .endOfInput, _, _⟩ => .isFalse fun ⟨_, same, kind⟩ => by cases same; cases kind
  | .ok ⟨.number _, _, _⟩ => .isFalse fun ⟨_, same, kind⟩ => by cases same; cases kind
  | .ok ⟨.word, _, _⟩ => .isFalse fun ⟨_, same, kind⟩ => by cases same; cases kind

/-- The items without the ends of lines. -/
def withoutLineEnds (items : List (Except Failure Token)) : List (Except Failure Token) :=
  items.filter fun item => ¬ IsLineEnd item

variable {s : TokenStream} {item : Except Failure Token} {items others : List (Except Failure Token)}

theorem withoutLineEnds_cons_of_isLineEnd (lineEnd : IsLineEnd item) :
    withoutLineEnds (item :: items) = withoutLineEnds items :=
  List.filter_cons_of_neg (by simpa using lineEnd)

theorem withoutLineEnds_cons_of_not (other : ¬ IsLineEnd item) :
    withoutLineEnds (item :: items) = item :: withoutLineEnds items :=
  List.filter_cons_of_pos (by simpa using other)

theorem withoutLineEnds_append :
    withoutLineEnds (items ++ others) = withoutLineEnds items ++ withoutLineEnds others :=
  List.filter_append ..

/-! ## Two streams -/

/-- Without the ends of lines the items are the first ones of the free stream. -/
theorem filter_results (idle : s.lookahead = none) (n : Nat) :
    s.free.results (withoutLineEnds (s.results n)).length = withoutLineEnds (s.results n) := by
  induction n generalizing s with
  | zero => rfl
  | succ n ih =>
    have others := ih (lookahead_next s)
    rw [results]
    obtain ⟨lineEnd, same⟩ | ⟨other, same⟩ := next_free idle
    · rw [withoutLineEnds_cons_of_isLineEnd lineEnd]
      -- an item less was taken, and the free stream has not moved
      cases kept : withoutLineEnds (s.next.2.results n) with
      | nil => rfl
      | cons item items =>
        rw [kept] at others
        exact (results_congr same _).trans others
    · rw [withoutLineEnds_cons_of_not other, List.length_cons, results, same, others]

/-- Behind any number of ends of lines there is another item. -/
theorem exists_withoutLineEnds_eq_singleton (s : TokenStream) :
    ∃ n item, withoutLineEnds (s.results n) = [item] := by
  obtain ⟨n, token, met, last⟩ := s.exists_isLast
  induction n generalizing s with
  | zero =>
    have other : ¬ IsLineEnd s.next.1 := by
      rintro ⟨other, same, kind⟩
      cases met.symm.trans same
      rw [Token.isLast_iff, kind] at last
      cases last
    exact ⟨1, _, withoutLineEnds_cons_of_not other⟩
  | succ n ih =>
    by_cases lineEnd : IsLineEnd s.next.1
    · obtain ⟨m, item, single⟩ := ih s.next.2 met
      exact ⟨m + 1, item, (withoutLineEnds_cons_of_isLineEnd lineEnd).trans single⟩
    · exact ⟨1, _, withoutLineEnds_cons_of_not lineEnd⟩

/-- Every item of the free stream is met. -/
theorem exists_filter_eq (idle : s.lookahead = none) (k : Nat) :
    ∃ n, withoutLineEnds (s.results n) = s.free.results k := by
  have reached : ∃ n, (withoutLineEnds (s.results n)).length = k := by
    induction k with
    | zero => exact ⟨0, rfl⟩
    | succ k ih =>
      obtain ⟨n, count⟩ := ih
      obtain ⟨m, item, single⟩ := exists_withoutLineEnds_eq_singleton (s.after n)
      refine ⟨n + m, ?_⟩
      rw [results_add, withoutLineEnds_append, List.length_append, count, single,
        List.length_singleton]
  obtain ⟨n, rfl⟩ := reached
  exact ⟨n, (filter_results idle n).symm⟩

end TokenStream

open TokenStream

/-! ## The ends of lines -/

/-- The end of a line, if a line feed ends it. -/
def lineEndOf (n : Nat) (line : List Char) : List (Except Failure Token) :=
  if line.getLast? = some '\n' then [.ok (endingOf .endOfLine line n)] else []

/-- The ends of some lines, the first of which has the number `n`. -/
def lineEndsOf (n : Nat) : List (List Char) → List (Except Failure Token)
  | [] => []
  | line :: lines => lineEndOf n line ++ lineEndsOf (n + 1) lines

theorem itemsOfLine_linewise (n : Nat) (line : List Char) :
    itemsOfLine .linewise n line = (pieces line).map (Piece.item line n) ++ lineEndOf n line := by
  simp only [itemsOfLine, lineEndOf, true_and]

theorem isLineEnd_of_mem_lineEndOf {n : Nat} {line : List Char} {item : Except Failure Token}
    (member : item ∈ lineEndOf n line) : IsLineEnd item := by
  rw [lineEndOf] at member
  split at member
  · exact ⟨_, List.mem_singleton.1 member, rfl⟩
  · contradiction

theorem filter_isLineEnd_itemsOfLine (n : Nat) (line : List Char) :
    (itemsOfLine .linewise n line).filter IsLineEnd = lineEndOf n line := by
  have none : ((pieces line).map (Piece.item line n)).filter IsLineEnd = [] := by
    refine List.filter_eq_nil_iff.2 fun item member => ?_
    obtain ⟨p, _, rfl⟩ := List.mem_map.1 member
    simpa using not_isLineEnd_item line n p
  have all : (lineEndOf n line).filter IsLineEnd = lineEndOf n line :=
    List.filter_eq_self.2 fun item member => by simpa using isLineEnd_of_mem_lineEndOf member
  rw [itemsOfLine_linewise, List.filter_append, none, all, List.nil_append]

theorem filter_isLineEnd_itemsOfReads (n : Nat) (reads : List Read) :
    (itemsOfReads .linewise n reads).filter IsLineEnd = lineEndsOf n (textsOf reads) := by
  induction reads generalizing n with
  | nil => rfl
  | cons read reads ih =>
    rw [textsOf_cons]
    obtain ⟨line, text, _⟩ | ⟨message, fault, none⟩ := read.text_or_fault
    · rw [itemsOfReads_cons_of_text _ text, List.filter_append, filter_isLineEnd_itemsOfLine, ih, text]
      rfl
    · have lost : ¬ IsLineEnd (.error (.io message)) := not_isLineEnd_error
      rw [itemsOfReads_cons_of_fault _ fault, List.filter_cons_of_neg (by simpa using lost), ih, none]
      rfl

/-- The items of a source where lines count, against those where line feeds are blanks.
    * Without the ends of lines the first items of the one are the first items of the other, and every
      item of the other is met that way.
    * Of the items before the end of the input, the ends of lines are one for each line that was read
      and that a line feed ends, in the order of the lines and with their numbers.
    * The items of a line stand together, the end of the line behind them: in front of them are the
      items of the reads before, and behind them those of the reads after, failures included.
    * Only the last thing that was read can be a line that no line feed ends. -/
theorem line_ends_among_items (source : Source) :
    let linewise := TokenStream.ofSource .linewise source
    let freeform := TokenStream.ofSource .freeform source
    let reads := source.stretches.map Read.ofStretch
    let items := itemsOfReads .linewise 1 reads
    let last := endingOf .endOfInput ((textsOf reads).getLast?.getD []) (max (textsOf reads).length 1)
    (∀ n, ∃ k, withoutLineEnds (linewise.results n) = freeform.results k) ∧
      (∀ k, ∃ n, withoutLineEnds (linewise.results n) = freeform.results k) ∧
      (∀ m, linewise.results (items.length + (m + 1)) =
        items ++ List.replicate (m + 1) (.ok last)) ∧
      items.filter IsLineEnd = lineEndsOf 1 (textsOf reads) ∧
      ∀ before read after line, reads = before ++ read :: after → read.text? = some line →
        let n := 1 + (textsOf before).length
        items = itemsOfReads .linewise 1 before ++
            ((pieces line).map (Piece.item line n) ++ lineEndOf n line ++
              itemsOfReads .linewise (n + 1) after) ∧
          (after ≠ [] → line.getLast? = some '\n') := by
  intro linewise freeform reads items last
  have made : source.reads = reads := Source.readsFrom_eq_map_stretches source.signals
  refine ⟨fun n => ⟨_, (filter_results rfl n).symm⟩, exists_filter_eq rfl,
    results_of_source .linewise made, filter_isLineEnd_itemsOfReads 1 reads, ?_⟩
  intro before read after line split text n
  constructor
  · rw [show items = itemsOfReads .linewise 1 (before ++ read :: after) from congrArg _ split,
      itemsOfReads_append, itemsOfReads_cons_of_text _ text, itemsOfLine_linewise]
  · exact fun more => Source.getLast?_of_reads (made.trans split) more text

/-- The end of a line stands behind its word and in front of the failure of the next read. -/
theorem line_end_before_failed_read :
    let source : Source := [.data (Text.encode "+\n2".toList), .failure "reset"]
    let line := "+\n".toList
    (TokenStream.ofSource .linewise source).results 3 =
        [.ok ⟨.word, "+", ⟨1, 0, 1⟩⟩,
          .ok ⟨.ending .endOfLine, "", ⟨1, 1, 1⟩⟩,
          .error (.io "reset")] ∧
      itemsOfReads .linewise 1 (source.stretches.map Read.ofStretch) =
        (pieces line).map (Piece.item line 1) ++ [.ok (endingOf .endOfLine line 1)] ++
          [.error (.io "reset")] ∧
      (itemsOfReads .linewise 1 (source.stretches.map Read.ofStretch)).filter IsLineEnd =
        [.ok ⟨.ending .endOfLine, "", ⟨1, 1, 1⟩⟩] := by
  intro source line
  have reads : source.stretches.map Read.ofStretch =
      [] ++ ⟨2, .ok line⟩ :: [⟨1, .error "reset"⟩] := by rfl
  obtain ⟨_, _, _, ends, around⟩ := line_ends_among_items source
  obtain ⟨items, _⟩ := around [] ⟨2, .ok line⟩ [⟨1, .error "reset"⟩] line reads rfl
  refine ⟨rfl, items, ends.trans ?_⟩
  rw [reads]
  rfl

end Polish
