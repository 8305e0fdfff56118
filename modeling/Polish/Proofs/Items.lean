import Polish.TokenStream.Size

/-! # The items of a stream

The items of a stream are the results that it gives when tokens are taken from it again and again,
failures included.  Everything that is taken from a stream is told by its items.

* `results n` are the first `n` items, `after n` is the stream behind them.
* Looking ahead changes no item: `peek_of_next_ok` and `next_of_peek`.  A failure that is looked at is
  taken: `peek_of_next_error`.
* `exists_isLast` says that every stream comes to the end of its input.
-/

namespace Polish.TokenStream

def after (s : TokenStream) : Nat → TokenStream
  | 0 => s
  | n + 1 => s.next.2.after n

def results (s : TokenStream) : Nat → List (Except Failure Token)
  | 0 => []
  | n + 1 => s.next.1 :: s.next.2.results n

@[simp]
theorem after_zero (s : TokenStream) : s.after 0 = s := rfl

@[simp]
theorem results_zero (s : TokenStream) : s.results 0 = [] := rfl

@[simp]
theorem length_results (s : TokenStream) (n : Nat) : (s.results n).length = n := by
  induction n generalizing s with
  | zero => rfl
  | succ n ih => rw [results, List.length_cons, ih]

theorem after_add (s : TokenStream) (m n : Nat) : s.after (m + n) = (s.after m).after n := by
  induction m generalizing s with
  | zero => rw [Nat.zero_add, after_zero]
  | succ m ih => rw [Nat.succ_add, after, after, ih]

theorem results_add (s : TokenStream) (m n : Nat) :
    s.results (m + n) = s.results m ++ (s.after m).results n := by
  induction m generalizing s with
  | zero => simp
  | succ m ih => rw [Nat.succ_add, results, results, after, ih, List.cons_append]

theorem after_succ (s : TokenStream) (n : Nat) : s.after (n + 1) = (s.after n).next.2 :=
  after_add s n 1

theorem results_succ (s : TokenStream) (n : Nat) :
    s.results (n + 1) = s.results n ++ [(s.after n).next.1] :=
  results_add s n 1

theorem results_eq_take {s : TokenStream} {m n : Nat} (le : m ≤ n) :
    s.results m = (s.results n).take m := by
  obtain ⟨k, rfl⟩ := Nat.exists_eq_add_of_le le
  rw [results_add, List.take_left' (length_results s m)]

theorem results_of_le {s s' : TokenStream} {m n : Nat} (same : s'.results n = s.results n)
    (le : m ≤ n) : s'.results m = s.results m := by
  rw [results_eq_take le, same, ← results_eq_take le]

theorem next_of_results {s s' : TokenStream} {n : Nat} (same : s'.results (n + 1) = s.results (n + 1)) :
    (s'.after n).next.1 = (s.after n).next.1 := by
  rw [results_succ, results_succ] at same
  exact (List.cons.inj (List.append_inj_right same (by simp))).1

theorem exists_of_mem_results {s : TokenStream} {n : Nat} {item : Except Failure Token}
    (member : item ∈ s.results n) : ∃ k < n, (s.after k).next.1 = item := by
  induction n with
  | zero => contradiction
  | succ n ih =>
    rw [results_succ, List.mem_append, List.mem_singleton] at member
    cases member with
    | inl earlier =>
      obtain ⟨k, less, same⟩ := ih earlier
      exact ⟨k, Nat.lt_succ_of_lt less, same⟩
    | inr last => exact ⟨n, Nat.lt_succ_self n, last.symm⟩

theorem mem_results_of_le {s : TokenStream} {m n : Nat} (le : m ≤ n) {item : Except Failure Token}
    (member : item ∈ s.results m) : item ∈ s.results n :=
  List.mem_of_mem_take (results_eq_take le ▸ member)

theorem next_mem_results {s : TokenStream} {k n : Nat} (less : k < n) :
    (s.after k).next.1 ∈ s.results n := by
  refine mem_results_of_le less ?_
  rw [results_succ]
  exact List.mem_append_right _ List.mem_cons_self

theorem next_after {s : TokenStream} {n : Nat} {item : Except Failure Token}
    (same : (s.after n).next.1 = item) : (s.after n).next = (item, s.after (n + 1)) := by
  rw [after_succ, ← same]

/-! ## Looking ahead -/

theorem peek_of_next_error {s s' : TokenStream} {failure : Failure}
    (h : s.next = (.error failure, s')) : s.peek = (.error failure, s') := by
  cases looked : s.lookahead with
  | some token =>
    rw [next_of_lookahead looked] at h
    cases h
  | none => exact peek_of_scan_error looked (next_of_idle looked ▸ h)

/-- Looking at a token leaves it to be taken. -/
theorem peek_of_next_ok {s s' : TokenStream} {token : Token} (h : s.next = (.ok token, s')) :
    ∃ s₁, s.peek = (.ok token, s₁) ∧ s₁.next = (.ok token, s') := by
  cases looked : s.lookahead with
  | some t =>
    have taken := next_of_lookahead looked
    rw [h] at taken
    cases taken
    exact ⟨s, peek_of_lookahead looked, h⟩
  | none =>
    rw [next_of_idle looked] at h
    refine ⟨_, peek_of_scan_ok looked h, ?_⟩
    rw [next_of_lookahead rfl]
    -- the scan leaves the empty lookahead alone, so that it is restored when the token is taken
    have same := (scan_shrinks h).2.1
    rw [looked] at same
    cases s'
    cases same
    rfl

theorem next_of_peek {s s₁ : TokenStream} {token : Token} (h : s.peek = (.ok token, s₁)) :
    s₁.next = s.next := by
  have taken := next_eq_of_peek h
  obtain ⟨s₂, looked, again⟩ := peek_of_next_ok taken
  rw [h] at looked
  cases looked
  rw [again, taken]

theorem next_of_peek_error {s s' : TokenStream} {failure : Failure}
    (h : s.peek = (.error failure, s')) : s.next = (.error failure, s') := by
  rcases taken : s.next with ⟨other | token, s₁⟩
  · rw [← peek_of_next_error taken, h]
  · obtain ⟨s₂, looked, _⟩ := peek_of_next_ok taken
    rw [h] at looked
    cases looked

/-! ## The end of the input -/

theorem exists_isLast (s : TokenStream) :
    ∃ n token, (s.after n).next.1 = .ok token ∧ token.isLast = true := by
  induction size : s.size using Nat.strongRecOn generalizing s with
  | ind size ih =>
    by_cases last : ∃ token, s.next.1 = .ok token ∧ token.isLast = true
    · exact ⟨0, last⟩
    · have less : s.next.2.size < s.size := by
        refine size_next_lt rfl fun token same => ?_
        simpa using fun isLast => last ⟨token, same, isLast⟩
      obtain ⟨n, token, met, isLast⟩ := ih _ (size ▸ less) s.next.2 rfl
      exact ⟨n + 1, token, met, isLast⟩

end Polish.TokenStream
