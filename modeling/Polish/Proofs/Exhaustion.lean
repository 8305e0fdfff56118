import Polish.Proofs.Queue

/-! # The end of the input is final

Once a stream has answered that its input is at the end it gives this answer for ever, and it does not
turn to its source again, whatever the source might still hold.

* `Ended`: the stream has found the end of its input, and a token that was looked at is that end.
* `Ended.respond` and `Ended.behind`: one request, and any number of them.
* `Sound.respond`: the answer that the input is at its end is only given by a stream that has ended.
* `exists_ended` puts this together for requests in any order, and `eq_of_ended` says where the end is.
-/

namespace Polish

/-- What a request is answered with at the end of the input. -/
def Request.answerAtEnd (last : Token) : Request → Answer
  | .takeUnlessLast => none
  | _ => some (.ok last)

def Answer.IsEnd (answer : Answer) : Prop :=
  answer = none ∨ ∃ token, answer = some (.ok token) ∧ token.isLast = true

namespace TokenStream

variable {s s' : TokenStream} {last token : Token}

structure Ended (s : TokenStream) (last : Token) : Prop where
  finished : s.finished = true
  ending_eq : s.ending .endOfInput = last
  looked : ∀ token, s.lookahead = some token → token = last

/-- If the end of the input was looked at, it was found. -/
def Sound (s : TokenStream) : Prop :=
  ∀ token, s.lookahead = some token → token.isLast = true → s.Ended token

theorem sound_of_idle (idle : s.lookahead = none) : s.Sound := by
  intro token looked
  rw [idle] at looked
  cases looked

namespace Ended

theorem isLast (ended : s.Ended last) : last.isLast = true :=
  ended.ending_eq ▸ rfl

theorem with_lookahead (ended : s.Ended last) {looked : Option Token}
    (same : ∀ token, looked = some token → token = last) :
    ({ s with lookahead := looked } : TokenStream).Ended last :=
  ⟨ended.finished, ended.ending_eq, same⟩

theorem more (ended : s.Ended last) (unread : List Read) :
    ({ s with unread := unread } : TokenStream).Ended last :=
  ⟨ended.finished, ended.ending_eq, ended.looked⟩

theorem next_eq (ended : s.Ended last) : s.next = (.ok last, s.skip) := by
  cases looked : s.lookahead with
  | some token =>
    rw [next_of_lookahead looked, ended.looked token looked]
  | none =>
    have same : s.skip = s := by rw [skip, ← looked]
    rw [next_of_finished looked ended.finished, ended.ending_eq, same]

theorem peek_eq (ended : s.Ended last) : s.peek = (.ok last, { s with lookahead := some last }) := by
  cases looked : s.lookahead with
  | some token =>
    obtain rfl := ended.looked token looked
    rw [peek_of_lookahead looked, ← looked]
  | none =>
    refine peek_of_scan_ok looked ?_
    rw [scan, if_pos ended.finished, ended.ending_eq]

/-- Nothing changes but what was looked at. -/
theorem respond (ended : s.Ended last) (request : Request) :
    (s.respond request).1 = request.answerAtEnd last ∧ (s.respond request).2.Ended last ∧
      ∃ looked, (s.respond request).2 = { s with lookahead := looked } := by
  have nothing : s.skip.Ended last := ended.with_lookahead fun token same => by cases same
  cases request with
  | take =>
    rw [TokenStream.respond, ended.next_eq]
    exact ⟨rfl, nothing, none, rfl⟩
  | look =>
    rw [TokenStream.respond, ended.peek_eq]
    exact ⟨rfl, ended.with_lookahead fun token same => (Option.some.inj same).symm, some last, rfl⟩
  | takeUnlessLast =>
    have taken : s.next? = (none, s.skip) := by
      rw [next?, ended.next_eq]
      exact if_pos ended.isLast
    rw [TokenStream.respond, taken]
    exact ⟨rfl, nothing, none, rfl⟩

theorem behind (ended : s.Ended last) (requests : List Request) :
    s.answers requests = requests.map (Request.answerAtEnd last) ∧ (s.behind requests).Ended last ∧
      ∃ looked, s.behind requests = { s with lookahead := looked } := by
  induction requests generalizing s with
  | nil => exact ⟨rfl, ended, s.lookahead, rfl⟩
  | cons request requests ih =>
    obtain ⟨answer, ended', looked, same⟩ := ended.respond request
    obtain ⟨answers, ended'', looked', others⟩ := ih ended'
    rw [TokenStream.answers, answer, answers, TokenStream.behind]
    exact ⟨rfl, ended'', looked', by rw [others, same]⟩

end Ended

/-! ## Where the end is found -/

theorem Sound.ended_of_next (sound : s.Sound) (taken : s.next = (.ok token, s'))
    (last : token.isLast = true) : s'.Ended token := by
  have idle : s'.lookahead = none := by
    have idle := lookahead_next s
    rwa [taken] at idle
  have looked : ∀ other, s'.lookahead = some other → other = token := fun other same => by
    rw [idle] at same
    cases same
  obtain ⟨other, same, skipped⟩ | ⟨_, finished, again⟩ | ⟨s₀, ready, skips, answers⟩ := s.next_cases
  · rw [taken] at skipped
    cases skipped
    have ended := sound token same last
    exact ⟨ended.finished, ended.ending_eq, looked⟩
  · rw [taken] at again
    cases again
    exact ⟨finished, rfl, looked⟩
  · rw [taken] at answers
    cases answers with
    | ended nothing reads => exact ⟨rfl, rfl, looked⟩
    | onLine answered =>
      rw [isLast_of_answered answered rfl] at last
      contradiction

/-- What was looked at is the next token, and there is only one. -/
theorem eq_of_peek {other : Token} (looked : s.peek = (.ok token, s')) (same : s'.lookahead = some other) :
    other = token := by
  have first : s'.next = s.next := next_of_peek looked
  rw [next_of_lookahead same, next_eq_of_peek looked] at first
  cases first
  rfl

theorem Sound.ended_of_peek (sound : s.Sound) (looked : s.peek = (.ok token, s'))
    (last : token.isLast = true) : s'.Ended token := by
  have ended := sound.ended_of_next (next_eq_of_peek looked) last
  exact ⟨ended.finished, ended.ending_eq, fun _ => eq_of_peek looked⟩

/-- A stream that answers with the end of its input has ended, and any other stream stays sound. -/
theorem Sound.respond (sound : s.Sound) (request : Request) :
    (s.respond request).2.Sound ∧
      ((s.respond request).1.IsEnd → ∃ last, (s.respond request).2.Ended last) := by
  have idle : s.next.2.Sound := sound_of_idle (lookahead_next s)
  cases request with
  | take =>
    refine ⟨idle, ?_⟩
    rintro (none | ⟨token, item, last⟩)
    · cases none
    · exact ⟨token, sound.ended_of_next (Prod.ext (Option.some.inj item) rfl) last⟩
  | look =>
    rcases looked : s.peek with ⟨failure | token, s₁⟩
    · have same := next_of_peek_error looked
      rw [TokenStream.respond, looked]
      refine ⟨by rwa [same] at idle, ?_⟩
      rintro (none | ⟨token, item, _⟩)
      · cases none
      · cases item
    · rw [TokenStream.respond, looked]
      refine ⟨fun other same last => ?_, ?_⟩
      · obtain rfl := eq_of_peek looked same
        exact sound.ended_of_peek looked last
      · rintro (none | ⟨other, item, last⟩)
        · cases none
        · cases item
          exact ⟨token, sound.ended_of_peek looked last⟩
  | takeUnlessLast =>
    rcases taken : s.next with ⟨failure | token, s₁⟩
    · rw [taken] at idle
      simp only [TokenStream.respond, next?, taken]
      refine ⟨idle, ?_⟩
      rintro (none | ⟨token, item, _⟩)
      · cases none
      · cases item
    · rw [taken] at idle
      cases last : token.isLast with
      | true =>
        simp only [TokenStream.respond, next?, taken, last, if_true]
        exact ⟨idle, fun _ => ⟨token, sound.ended_of_next taken last⟩⟩
      | false =>
        simp only [TokenStream.respond, next?, taken, last, Bool.false_eq_true, if_false]
        refine ⟨idle, ?_⟩
        rintro (none | ⟨other, item, isLast⟩)
        · cases none
        · cases item
          rw [last] at isLast
          contradiction

/-- If one of the requests was answered with the end of the input, the stream has ended. -/
theorem exists_ended (sound : s.Sound) {requests : List Request}
    (met : ∃ answer ∈ s.answers requests, answer.IsEnd) : ∃ last, (s.behind requests).Ended last := by
  induction requests generalizing s with
  | nil =>
    obtain ⟨answer, member, _⟩ := met
    contradiction
  | cons request requests ih =>
    obtain ⟨sound', ends⟩ := sound.respond request
    obtain ⟨answer, member, isEnd⟩ := met
    obtain rfl | later := List.mem_cons.1 member
    · obtain ⟨last, ended⟩ := ends isEnd
      exact ⟨last, (ended.behind requests).2.1⟩
    · exact ih sound' ⟨answer, later, isEnd⟩

/-- The end that was found is the one that the queue holds. -/
theorem eq_of_ended {requests : List Request} {n : Nat} {found : Token}
    (ended : (s.behind requests).Ended found) (spares : s.queue.Spares n)
    (ends : ∀ k ≥ n, s.queue.get k = .ok last) : found = last := by
  obtain ⟨k, _, rest⟩ := s.queue.exists_kept requests
  rw [← (s.answers_queue requests).2] at rest
  have first : (s.behind requests).queue.get 0 = .ok found := congrArg Prod.fst ended.next_eq
  rw [rest, Stream'.get_drop, Nat.add_zero] at first
  by_cases inside : k < n
  · have goesOn := spares k inside found first
    rw [ended.isLast] at goesOn
    contradiction
  · rw [ends k (Nat.le_of_not_lt inside)] at first
    exact (Except.ok.inj first).symm

end TokenStream

end Polish
