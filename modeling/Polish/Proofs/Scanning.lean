import Polish.Proofs.Lexing

/-! # What one step of a stream does

Where no token was looked at, a step of a stream first reads lines on which nothing is to be found, as
many as there are, and then answers: from the line that it holds, or with the failure of a read, or with
the end of the input.

* `Skips` is the first part, `Answers` the second.
* `exists_answers`: every step is made of these two; `next_of_answers`: and of nothing else.
* `next_of_isLast`: behind the end of the input there is nothing but the end of the input.
-/

namespace Polish.TokenStream

/-- From `s` lines are read on which nothing is to be found, until `s'` holds the last of them. -/
inductive Skips : TokenStream → TokenStream → Prop where
  | none (s : TokenStream) : Skips s s
  | line {s s' : TokenStream} {read : Read} {unread : List Read} {text : List Char}
      (nothing : s.onLine? = .none) (reads : s.unread = read :: unread)
      (line : read.outcome = .ok text)
      (others : Skips ((s.advance read.size unread).hold text) s') : Skips s s'

/-- What a stream answers without reading another line. -/
inductive Answers (s : TokenStream) : Except Failure Token × TokenStream → Prop where
  | onLine {result : Except Failure Token × TokenStream} (answered : s.onLine? = some result) :
      Answers s result
  | failed {read : Read} {unread : List Read} {message : String} (nothing : s.onLine? = none)
      (reads : s.unread = read :: unread) (failed : read.outcome = .error message) :
      Answers s (.error (.io message), s.advance read.size unread)
  | ended (nothing : s.onLine? = none) (reads : s.unread = []) :
      Answers s (.ok (s.ending .endOfInput), { s with finished := true })

variable {s s' : TokenStream} {result : Except Failure Token × TokenStream}

theorem Ready.of_skips (ready : s.Ready) (skips : Skips s s') : s'.Ready := by
  induction skips with
  | none => exact ready
  | line _ _ _ _ ih => exact ih ⟨ready.idle, ready.unfinished⟩

theorem Ready.exists_answers (ready : s.Ready) : ∃ s', Skips s s' ∧ s'.Answers s.next := by
  obtain ⟨unread, reads⟩ : ∃ unread, s.unread = unread := ⟨_, rfl⟩
  rw [ready.next_eq]
  induction unread generalizing s with
  | nil =>
    refine ⟨s, .none s, ?_⟩
    rw [reads, scanFrom]
    cases answered : s.onLine? with
    | none => exact .ended answered reads
    | some result => exact .onLine answered
  | cons read unread ih =>
    rw [reads, scanFrom]
    cases answered : s.onLine? with
    | some result => exact ⟨s, .none s, .onLine answered⟩
    | none =>
      cases line : read.outcome with
      | error message => exact ⟨s, .none s, .failed answered reads line⟩
      | ok text =>
        obtain ⟨s', skips, answers⟩ := ih (s := (s.advance read.size unread).hold text)
          ⟨ready.idle, ready.unfinished⟩ rfl
        exact ⟨s', .line answered reads line skips, answers⟩

theorem Ready.next_of_skips (ready : s.Ready) (skips : Skips s s') : s.next = s'.next := by
  induction skips with
  | none => rfl
  | @line s s' read unread text nothing reads line _ ih =>
    have one : s.unread = ⟨read.size, .ok text⟩ :: unread := by rw [reads, ← line]
    rw [ready.next_of_read nothing one]
    exact ih ⟨ready.idle, ready.unfinished⟩

theorem Ready.next_of_answers (ready : s.Ready) (answers : s.Answers result) : s.next = result := by
  cases answers with
  | onLine answered => exact ready.next_of_onLine? answered
  | failed nothing reads failed => rw [ready.next_eq, reads, scanFrom, nothing, failed]
  | ended nothing reads => exact ready.next_at_end nothing reads

theorem layout_of_skips (skips : Skips s s') : s'.layout = s.layout := by
  induction skips with
  | none => rfl
  | line _ _ _ _ ih => exact ih

/-! ## What every step keeps -/

/-- A step gives the token that was looked at, or the end of the input once more, or it reads lines and
    answers. -/
theorem next_cases (s : TokenStream) :
    (∃ token, s.lookahead = some token ∧ s.next = (.ok token, s.skip)) ∨
      (s.lookahead = none ∧ s.finished = true ∧ s.next = (.ok (s.ending .endOfInput), s)) ∨
      ∃ s', s.Ready ∧ Skips s s' ∧ s'.Answers s.next := by
  cases looked : s.lookahead with
  | some token => exact .inl ⟨token, rfl, next_of_lookahead looked⟩
  | none =>
    by_cases finished : s.finished = true
    · exact .inr (.inl ⟨rfl, finished, next_of_finished looked finished⟩)
    · have ready : s.Ready := ⟨looked, by simpa using finished⟩
      obtain ⟨s', skips, answers⟩ := ready.exists_answers
      exact .inr (.inr ⟨s', ready, skips, answers⟩)

/-- To answer takes at most one read, and leaves the line as it is. -/
theorem Answers.keeps (answers : s.Answers result) :
    result.2.layout = s.layout ∧ result.2.lookahead = s.lookahead ∧ result.2.text = s.text ∧
      result.2.unread <:+ s.unread ∧ s.consumed ≤ result.2.consumed := by
  cases answers with
  | failed nothing reads failed =>
    exact ⟨rfl, rfl, rfl, reads ▸ List.suffix_cons _ _, Nat.le_add_right _ _⟩
  | ended => exact ⟨rfl, rfl, rfl, List.suffix_rfl, Nat.le_refl _⟩
  | onLine answered =>
    obtain ⟨_, _, _, _, _, _, same⟩ | ⟨_, _, _, same⟩ := onLine?_cases answered <;> rw [same] <;>
      exact ⟨rfl, rfl, rfl, List.suffix_rfl, Nat.le_refl _⟩

theorem Answers.line_eq (answers : s.Answers result) : result.2.line = s.line := by
  cases answers with
  | failed | ended => rfl
  | onLine answered =>
    obtain ⟨_, _, _, _, _, _, same⟩ | ⟨_, _, _, same⟩ := onLine?_cases answered <;> rw [same]

theorem unread_of_skips (skips : Skips s s') :
    s'.unread <:+ s.unread ∧ s.consumed ≤ s'.consumed := by
  induction skips with
  | none => exact ⟨List.suffix_rfl, Nat.le_refl _⟩
  | line nothing reads line _ ih =>
    exact ⟨ih.1.trans (reads ▸ List.suffix_cons _ _), Nat.le_trans (Nat.le_add_right _ _) ih.2⟩

theorem layout_next (s : TokenStream) : s.next.2.layout = s.layout := by
  obtain ⟨token, _, taken⟩ | ⟨_, _, taken⟩ | ⟨s', _, skips, answers⟩ := s.next_cases
  · rw [taken, skip]
  · rw [taken]
  · exact answers.keeps.1.trans (layout_of_skips skips)

theorem lookahead_next (s : TokenStream) : s.next.2.lookahead = none := by
  obtain ⟨token, _, taken⟩ | ⟨looked, _, taken⟩ | ⟨s', ready, skips, answers⟩ := s.next_cases
  · rw [taken, skip]
  · rw [taken, looked]
  · exact answers.keeps.2.1.trans (ready.of_skips skips).idle

/-- What is still to be read becomes less, and what was taken becomes more. -/
theorem unread_next (s : TokenStream) :
    s.next.2.unread <:+ s.unread ∧ s.consumed ≤ s.next.2.consumed := by
  obtain ⟨token, _, taken⟩ | ⟨_, _, taken⟩ | ⟨s', _, skips, answers⟩ := s.next_cases
  · rw [taken, skip]
    exact ⟨List.suffix_rfl, Nat.le_refl _⟩
  · rw [taken]
    exact ⟨List.suffix_rfl, Nat.le_refl _⟩
  · obtain ⟨_, _, _, unread, consumed⟩ := answers.keeps
    obtain ⟨unread', consumed'⟩ := unread_of_skips skips
    exact ⟨unread.trans unread', Nat.le_trans consumed' consumed⟩

/-- Unless something is read, the line held stays. -/
theorem text_next (same : s.next.2.unread = s.unread) : s.next.2.text = s.text := by
  obtain ⟨token, _, taken⟩ | ⟨_, _, taken⟩ | ⟨s', _, skips, answers⟩ := s.next_cases
  · rw [taken, skip]
  · rw [taken]
  · obtain ⟨_, _, text, shorter, _⟩ := answers.keeps
    cases skips with
    | none => exact text
    | line nothing reads line others =>
      have shorter := shorter.length_le
      rw [same] at shorter
      have le := (unread_of_skips others).1.length_le
      have one : s.unread.length = _ + 1 := reads ▸ List.length_cons
      simp only [hold, advance] at le
      omega

theorem layout_after (s : TokenStream) (n : Nat) : (s.after n).layout = s.layout := by
  induction n generalizing s with
  | zero => rfl
  | succ n ih => rw [after, ih, layout_next]

theorem lookahead_after (idle : s.lookahead = none) (n : Nat) : (s.after n).lookahead = none := by
  cases n with
  | zero => exact idle
  | succ n =>
    rw [after_succ]
    exact lookahead_next _

theorem unread_after (s : TokenStream) (n : Nat) :
    (s.after n).unread <:+ s.unread ∧ s.consumed ≤ (s.after n).consumed := by
  induction n generalizing s with
  | zero => exact ⟨List.suffix_rfl, Nat.le_refl _⟩
  | succ n ih =>
    obtain ⟨unread, consumed⟩ := s.unread_next
    exact ⟨(ih s.next.2).1.trans unread, Nat.le_trans consumed (ih s.next.2).2⟩

theorem text_after {n : Nat} (same : (s.after n).unread = s.unread) {k : Nat} (le : k ≤ n) :
    (s.after k).text = s.text := by
  -- what is still to be read only becomes less, so that nothing is read in between
  have between : ∀ k ≤ n, (s.after k).unread = s.unread := by
    intro k le
    obtain ⟨j, rfl⟩ := Nat.exists_eq_add_of_le le
    rw [after_add] at same
    have later := (unread_after (s.after k) j).1
    rw [same] at later
    exact (unread_after s k).1.eq_of_length_le later.length_le
  induction k with
  | zero => rfl
  | succ k ih =>
    have here := between k (Nat.le_of_succ_le le)
    have next := between (k + 1) le
    rw [after_succ] at next ⊢
    rw [text_next (next.trans here.symm), ih (Nat.le_of_succ_le le)]

theorem exists_peek_eq (s : TokenStream) :
    ∃ looked, s.peek.2 = { s.next.2 with lookahead := looked } := by
  cases looked : s.lookahead with
  | some token =>
    refine ⟨some token, ?_⟩
    rw [peek_of_lookahead looked, next_of_lookahead looked, skip, ← looked]
  | none =>
    rw [next_of_idle looked]
    rcases scanned : s.scan with ⟨failure | token, s'⟩
    · exact ⟨s'.lookahead, by rw [peek_of_scan_error looked scanned]⟩
    · exact ⟨some token, by rw [peek_of_scan_ok looked scanned]⟩

/-! ## The end of the input -/

theorem isLast_of_answered {token : Token} (answered : s.onLine? = some result)
    (item : result.1 = .ok token) : token.isLast = false :=
  (onLine?_shrinks answered).2.2 token item

/-- As long as the input is not at its end, the source is asked for more. -/
theorem finished_next (unfinished : s.finished = false)
    (goesOn : ∀ token, s.next.1 = .ok token → token.isLast = false) : s.next.2.finished = false := by
  obtain ⟨token, _, taken⟩ | ⟨_, finished, _⟩ | ⟨s₀, ready, skips, answers⟩ := s.next_cases
  · rw [taken]
    exact unfinished
  · rw [finished] at unfinished
    contradiction
  · have ready₀ := (ready.of_skips skips).unfinished
    generalize s.next = result at answers goesOn
    cases answers with
    | failed => exact ready₀
    | ended => cases goesOn _ rfl
    | onLine answered =>
      obtain ⟨_, _, _, _, _, _, same⟩ | ⟨_, _, _, same⟩ := onLine?_cases answered <;> rw [same] <;>
        exact ready₀

theorem Ready.after (ready : s.Ready) {n : Nat}
    (goesOn : ∀ item ∈ s.results n, ∀ token, item = .ok token → token.isLast = false) :
    (s.after n).Ready := by
  refine ⟨lookahead_after ready.idle n, ?_⟩
  induction n with
  | zero => exact ready.unfinished
  | succ n ih =>
    rw [results_succ] at goesOn
    rw [after_succ]
    exact finished_next (ih fun item member => goesOn item (List.mem_append_left _ member))
      (goesOn _ (List.mem_append_right _ List.mem_cons_self))

/-- The end of the input is given again and again. -/
theorem next_of_isLast (idle : s.lookahead = none) {token : Token} (taken : s.next = (.ok token, s'))
    (last : token.isLast = true) : s'.next = (.ok token, s') := by
  by_cases finished : s.finished = true
  · rw [next_of_finished idle finished] at taken
    cases taken
    exact next_of_finished idle finished
  · have ready : s.Ready := ⟨idle, by simpa using finished⟩
    obtain ⟨s₀, skips, answers⟩ := ready.exists_answers
    rw [taken] at answers
    cases answers with
    | onLine answered =>
      rw [isLast_of_answered answered rfl] at last
      contradiction
    | ended nothing reads => exact next_of_finished (ready.of_skips skips).idle rfl

end Polish.TokenStream
