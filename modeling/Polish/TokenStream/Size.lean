import Polish.TokenStream.Basic

/-! # The size of a token stream

* `size` bounds the number of results that a stream gives before the end of the input.
* `size_next_lt` says that every result but the end of the input makes the stream smaller, which is
  why whatever takes tokens until it meets the end comes to an end itself.
* `items` is the list of all results.
-/

namespace Polish

namespace TokenStream

/-- How many results a read gives at most, and one more. -/
def weight (read : Read) : Nat :=
  match read.outcome with
  | .ok text => text.length + 2
  | .error _ => 1

def totalWeight : List Read → Nat
  | [] => 0
  | read :: reads => weight read + totalWeight reads

/-- A bound on the number of results before the end of the input. -/
def size (s : TokenStream) : Nat :=
  (match s.lookahead with
    | some token => if token.isLast then 0 else 1
    | none => 0)
  + s.rest.length + s.owesEnd.toNat + totalWeight s.unread

theorem onLine?_shrinks {s s' : TokenStream} {r : Except Failure Token}
    (h : s.onLine? = some (r, s')) :
    s'.size < s.size ∧ s'.lookahead = s.lookahead ∧ ∀ t, r = .ok t → t.isLast = false := by
  obtain ⟨before, blanks, lexeme, after, found, rfl, rfl⟩ | ⟨_, owed, rfl, rfl⟩ := onLine?_cases h
  · refine ⟨?_, rfl, ?_⟩
    · have left : s.rest = blanks ++ (lexeme.chars ++ after) := found.rest_eq
      have piece := List.length_pos_iff.2 (Lexeme.chars_ne_nil_of_next? found.next?_eq)
      have still :
          Text.behind s.text (Text.byteLength (before ++ blanks ++ lexeme.chars)) = after := by
        rw [found.text_eq, ← List.append_assoc, ← List.append_assoc, Text.behind_append]
      simp only [size, left]
      simp only [rest, still, List.length_append]
      omega
    · intro t answered
      cases lexeme with
      | word chars =>
        cases answered
        exact Token.isLast_ofWord _ _
      | stray c => cases answered
  · refine ⟨?_, rfl, ?_⟩
    · simp only [size, rest, owed, Bool.toNat_true, Bool.toNat_false]
      omega
    · rintro _ ⟨⟩
      rfl

theorem size_hold_advance_lt {s : TokenStream} {read : Read} {unread : List Read} {text : List Char}
    (reads : s.unread = read :: unread) (line : read.outcome = .ok text) :
    ((s.advance read.size unread).hold text).size < s.size := by
  have owed := Bool.toNat_le ((s.advance read.size unread).hold text).owesEnd
  simp only [hold, advance] at owed
  simp only [size, rest, hold, advance, reads, totalWeight, weight, line, Text.behind_zero]
  omega

/-- Scanning leaves the lookahead alone and never makes the stream larger; it makes the stream
    smaller unless it meets the end of the input. -/
theorem scanFrom_shrinks {s s' : TokenStream} {unread : List Read} {r : Except Failure Token}
    (reads : s.unread = unread) (h : s.scanFrom unread = (r, s')) :
    s'.size ≤ s.size ∧ s'.lookahead = s.lookahead ∧
      ((∀ t, r = .ok t → t.isLast = false) → s'.size < s.size) := by
  induction unread generalizing s with
  | nil =>
    simp only [scanFrom] at h
    cases found : s.onLine? with
    | none =>
      rw [found] at h
      cases h
      refine ⟨Nat.le_refl _, rfl, fun notLast => ?_⟩
      -- nothing is left to read, and the result is the end of the input
      have := notLast _ rfl
      contradiction
    | some result =>
      rw [found, Option.getD_some] at h
      subst h
      obtain ⟨smaller, same, _⟩ := onLine?_shrinks found
      exact ⟨Nat.le_of_lt smaller, same, fun _ => smaller⟩
  | cons read unread ih =>
    simp only [scanFrom] at h
    split at h
    · next result found =>
      subst h
      obtain ⟨smaller, same, _⟩ := onLine?_shrinks found
      exact ⟨Nat.le_of_lt smaller, same, fun _ => smaller⟩
    · split at h
      · next message failed =>
        cases h
        have smaller : (s.advance read.size unread).size < s.size := by
          simp only [size, rest, advance, reads, totalWeight, weight, failed]
          omega
        exact ⟨Nat.le_of_lt smaller, rfl, fun _ => smaller⟩
      · next text line =>
        -- the line may turn out blank, but holding it has paid for that already
        have smaller := size_hold_advance_lt reads line
        obtain ⟨le, same, _⟩ := ih rfl h
        exact ⟨Nat.le_of_lt (Nat.lt_of_le_of_lt le smaller), same,
          fun _ => Nat.lt_of_le_of_lt le smaller⟩

theorem scan_shrinks {s s' : TokenStream} {r : Except Failure Token} (h : s.scan = (r, s')) :
    s'.size ≤ s.size ∧ s'.lookahead = s.lookahead ∧
      ((∀ t, r = .ok t → t.isLast = false) → s'.size < s.size) := by
  rw [scan] at h
  split at h
  · cases h
    refine ⟨Nat.le_refl _, rfl, fun notLast => ?_⟩
    have := notLast _ rfl
    contradiction
  · exact scanFrom_shrinks rfl h

theorem size_next_lt {s s' : TokenStream} {r : Except Failure Token} (h : s.next = (r, s'))
    (notLast : ∀ t, r = .ok t → t.isLast = false) : s'.size < s.size := by
  cases looked : s.lookahead with
  | none =>
    rw [next_of_idle looked] at h
    exact (scan_shrinks h).2.2 notLast
  | some token =>
    rw [next_of_lookahead looked] at h
    cases h
    -- only a token that is not the last one counts while it is looked at
    have := notLast _ rfl
    simp [size, rest, skip, looked, this]

theorem size_next_lt_of_ok {s s' : TokenStream} {token : Token} (h : s.next = (.ok token, s'))
    (notLast : token.isLast = false) : s'.size < s.size :=
  size_next_lt h fun _ same => by cases same; exact notLast

theorem size_next_le {s s' : TokenStream} {r : Except Failure Token} (h : s.next = (r, s')) :
    s'.size ≤ s.size := by
  cases looked : s.lookahead with
  | none =>
    rw [next_of_idle looked] at h
    exact (scan_shrinks h).1
  | some token =>
    rw [next_of_lookahead looked] at h
    cases h
    simp only [size, skip, looked, rest]
    omega

theorem size_peek_le {s s' : TokenStream} {r : Except Failure Token} (h : s.peek = (r, s')) :
    s'.size ≤ s.size := by
  cases looked : s.lookahead with
  | some token =>
    rw [peek_of_lookahead looked] at h
    cases h
    exact Nat.le_refl _
  | none =>
    rcases scanned : s.scan with ⟨failure | token, s₁⟩
    · rw [peek_of_scan_error looked scanned] at h
      cases h
      exact (scan_shrinks scanned).1
    · rw [peek_of_scan_ok looked scanned] at h
      cases h
      obtain ⟨le, same, lt⟩ := scan_shrinks scanned
      rw [looked] at same
      simp only [size, rest, same, looked] at le lt ⊢
      -- a token that is looked at counts one, which is what the scan has made the stream smaller by
      split
      · omega
      · next notLast =>
        have := lt fun _ same => by cases same; simpa using notLast
        omega

theorem next_eq_of_peek {s s' : TokenStream} {token : Token} (h : s.peek = (.ok token, s')) :
    s.next = (.ok token, s'.skip) := by
  cases looked : s.lookahead with
  | some t =>
    rw [peek_of_lookahead looked] at h
    cases h
    exact next_of_lookahead looked
  | none =>
    rcases scanned : s.scan with ⟨failure | t, s₁⟩
    · rw [peek_of_scan_error looked scanned] at h
      cases h
    · rw [peek_of_scan_ok looked scanned] at h
      cases h
      -- the scan kept the empty lookahead, so forgetting the token gives the same stream back
      have same := (scan_shrinks scanned).2.1
      rw [looked] at same
      rw [next_of_idle looked, scanned]
      cases s₁
      cases same
      rfl

theorem size_next?_lt {s s' : TokenStream} {r : Except Failure Token}
    (h : s.next? = (some r, s')) : s'.size < s.size := by
  rw [next?] at h
  split at h
  · next token s₁ taken =>
    split at h
    · cases h
    · next notLast =>
      cases h
      exact size_next_lt_of_ok taken (by simpa using notLast)
  · next taken =>
    cases h
    exact size_next_lt taken nofun

/-! ## All tokens -/

def items (s : TokenStream) : List (Except Failure Token) × TokenStream :=
  match _h : s.next? with
  | (none, s) => ([], s)
  | (some result, s) =>
    let (results, s) := s.items
    (result :: results, s)
termination_by s.size
decreasing_by exact size_next?_lt _h

def itemsToEnd (s : TokenStream) : List (Except Failure Token) :=
  let (results, s) := s.items
  results ++ [s.next.1]

end TokenStream

end Polish
