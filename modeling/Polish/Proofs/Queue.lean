import Mathlib.Data.Stream.Init
import Polish.Proofs.Recovery
import Polish.Proofs.Scanning

/-! # A stream is a queue of its items

A stream may be asked for a token in three ways, in any order: to take one, to look at one, and to take
one unless the input is at its end.  Whatever was asked before, the answers are those of the endless
queue of items that a stream gives when tokens are only taken.

* `Queue.respond` says what a queue does with a request: to look removes a failure and nothing else.
* `TokenStream.respond_queue`: one request is answered alike, and leaves the same queue behind.
* `Queue.exists_kept`: the answers of the requests that removed something are the items from the front.
* `queue_of_source`: the queue of a source holds its items, and behind them the end of the input.
* `isWord_of_queue`: each token of it that is no ending is a word.
* `answers_like_queue` says it for a whole source.
-/

namespace Polish

inductive Request where
  | take
  | look
  | takeUnlessLast
  deriving DecidableEq, Repr

abbrev Answer := Option (Except Failure Token)

/-- Everything that is still to be taken, in its order.  The end of the input goes on for ever. -/
abbrev Queue := Stream' (Except Failure Token)

/-- Whether the request has taken what it was answered with.  What was only looked at stays. -/
def Request.removes : Request → Answer → Bool
  | .look, some (.ok _) => false
  | _, _ => true

/-- The answer to a request that removed the item: the item, or nothing at the end of the input. -/
def AnswerOf (answer : Answer) (item : Except Failure Token) : Prop :=
  answer = some item ∨ answer = none ∧ ∃ token, item = .ok token ∧ token.isLast = true

/-- The answers, in order, without those to requests that removed nothing. -/
def keptOf : List Request → List Answer → List Answer
  | request :: requests, answer :: answers =>
    if request.removes answer then answer :: keptOf requests answers else keptOf requests answers
  | _, _ => []

/-! ## Queues -/

namespace Queue

def respond (q : Queue) (request : Request) : Answer × Queue :=
  match request, q.head with
  | .take, item => (some item, q.tail)
  | .look, .ok token => (some (.ok token), q)
  | .look, .error failure => (some (.error failure), q.tail)
  | .takeUnlessLast, .ok token => (if token.isLast then none else some (.ok token), q.tail)
  | .takeUnlessLast, .error failure => (some (.error failure), q.tail)

def answers (q : Queue) : List Request → List Answer
  | [] => []
  | request :: requests => (respond q request).1 :: answers (respond q request).2 requests

def behind (q : Queue) : List Request → Queue
  | [] => q
  | request :: requests => behind (respond q request).2 requests

/-- No one of the first `n` items is the end of the input. -/
def Spares (q : Queue) (n : Nat) : Prop :=
  ∀ i < n, ∀ token, q.get i = .ok token → token.isLast = false

/-- A request removes the first item and is answered with it, or it removes nothing. -/
theorem respond_cases (q : Queue) (request : Request) :
    (request.removes (respond q request).1 = true ∧ AnswerOf (respond q request).1 q.head ∧
        (respond q request).2 = q.tail) ∨
      (request.removes (respond q request).1 = false ∧ (respond q request).2 = q) := by
  cases request with
  | take => exact .inl ⟨rfl, .inl rfl, rfl⟩
  | look =>
    cases item : q.head with
    | error failure => simp [respond, item, Request.removes, AnswerOf]
    | ok token => simp [respond, item, Request.removes]
  | takeUnlessLast =>
    cases item : q.head with
    | error failure => simp [respond, item, Request.removes, AnswerOf]
    | ok token => cases last : token.isLast <;> simp [respond, item, last, Request.removes, AnswerOf]

/-- No item is lost, none is given twice, and none out of turn. -/
theorem exists_kept (q : Queue) (requests : List Request) :
    ∃ k, List.Forall₂ AnswerOf (keptOf requests (answers q requests)) (q.take k) ∧
      behind q requests = q.drop k := by
  induction requests generalizing q with
  | nil => exact ⟨0, .nil, rfl⟩
  | cons request requests ih =>
    obtain ⟨k, kept, behind⟩ := ih (respond q request).2
    obtain ⟨removed, answer, rest⟩ | ⟨stayed, rest⟩ := respond_cases q request
    · rw [rest] at kept behind
      refine ⟨k + 1, ?_, by rw [Queue.behind, rest, behind]; rfl⟩
      rw [answers, keptOf, if_pos removed, rest]
      exact .cons answer kept
    · rw [rest] at kept behind
      refine ⟨k, ?_, by rw [Queue.behind, rest, behind]⟩
      rwa [answers, keptOf, if_neg (by simp [stayed]), rest]

end Queue

/-! ## Streams -/

namespace TokenStream

variable {s s' : TokenStream}

def respond (s : TokenStream) : Request → Answer × TokenStream
  | .take => (some s.next.1, s.next.2)
  | .look => (some s.peek.1, s.peek.2)
  | .takeUnlessLast => s.next?

def answers (s : TokenStream) : List Request → List Answer
  | [] => []
  | request :: requests => (s.respond request).1 :: (s.respond request).2.answers requests

/-- The stream after all the requests. -/
def behind (s : TokenStream) : List Request → TokenStream
  | [] => s
  | request :: requests => (s.respond request).2.behind requests

def queue (s : TokenStream) : Queue :=
  fun k => (s.after k).next.1

theorem take_queue (s : TokenStream) (n : Nat) : s.queue.take n = s.results n := by
  induction n generalizing s with
  | zero => rfl
  | succ n ih => exact congrArg (List.cons s.next.1) (ih s.next.2)

theorem queue_congr (same : s'.next = s.next) : s'.queue = s.queue := by
  funext k
  cases k with
  | zero => exact congrArg Prod.fst same
  | succ k => simp [queue, after, same]

theorem queue_of_peek {token : Token} (looked : s.peek = (.ok token, s')) : s'.queue = s.queue :=
  queue_congr (next_of_peek looked)

/-- A request is answered from the front of the queue, and leaves what the queue says. -/
theorem respond_queue (s : TokenStream) (request : Request) :
    (s.respond request).1 = (Queue.respond s.queue request).1 ∧
      (s.respond request).2.queue = (Queue.respond s.queue request).2 := by
  have first : s.queue.head = s.next.1 := rfl
  cases request with
  | take => exact ⟨rfl, rfl⟩
  | look =>
    rcases taken : s.next with ⟨failure | token, s'⟩
    · have rest : s'.queue = s.queue.tail := congrArg (fun result => queue result.2) taken.symm
      simp [respond, Queue.respond, first, taken, peek_of_next_error taken, rest]
    -- what was looked at is the next item of the stream that is left
    · obtain ⟨s₁, looked, again⟩ := peek_of_next_ok taken
      have rest : s₁.queue = s.queue := queue_congr (again.trans taken.symm)
      simp [respond, Queue.respond, first, taken, looked, rest]
  | takeUnlessLast =>
    rcases taken : s.next with ⟨failure | token, s'⟩
    · have rest : s'.queue = s.queue.tail := congrArg (fun result => queue result.2) taken.symm
      simp [respond, next?, Queue.respond, first, taken, rest]
    · have rest : s'.queue = s.queue.tail := congrArg (fun result => queue result.2) taken.symm
      cases last : token.isLast <;> simp [respond, next?, Queue.respond, first, taken, last, rest]

theorem answers_queue (s : TokenStream) (requests : List Request) :
    s.answers requests = Queue.answers s.queue requests ∧
      (s.behind requests).queue = Queue.behind s.queue requests := by
  induction requests generalizing s with
  | nil => exact ⟨rfl, rfl⟩
  | cons request requests ih =>
    obtain ⟨answer, rest⟩ := s.respond_queue request
    obtain ⟨answers, behind⟩ := ih (s.respond request).2
    rw [rest] at answers behind
    exact ⟨by rw [TokenStream.answers, Queue.answers, answer, answers],
      by rw [TokenStream.behind, Queue.behind, behind]⟩

/-! ## A whole source -/

theorem getElem?_results {k n : Nat} (less : k < n) : (s.results n)[k]? = some (s.queue.get k) := by
  obtain ⟨m, rfl⟩ := Nat.exists_eq_add_of_lt less
  rw [Nat.add_right_comm, results_add, results_succ, List.append_assoc,
    List.getElem?_append_right (by simp)]
  simp [queue, Stream'.get]

/-- The items of a source, and then the end of its input and nothing else. -/
theorem queue_of_source (layout : Layout) (source : Source) :
    let q := (ofSource layout source).queue
    let items := itemsOfReads layout 1 source.reads
    ∃ last, last.isLast = true ∧ (∀ k < items.length, items[k]? = some (q.get k)) ∧
      ∀ k ≥ items.length, q.get k = .ok last := by
  intro q items
  obtain ⟨last, isLast, results⟩ : ∃ last, last.isLast = true ∧ ∀ m,
      (ofSource layout source).results (items.length + (m + 1)) =
        items ++ List.replicate (m + 1) (.ok last) :=
    ⟨_, rfl, results_of_source layout rfl⟩
  refine ⟨last, isLast, fun k less => ?_, fun k le => ?_⟩
  · have same := getElem?_results (s := ofSource layout source) (Nat.lt_add_right (0 + 1) less)
    rwa [results, List.getElem?_append_left less] at same
  · obtain ⟨j, rfl⟩ := Nat.exists_eq_add_of_le le
    have same := getElem?_results (s := ofSource layout source) (k := items.length + j)
      (n := items.length + (j + 1)) (by omega)
    rw [results, List.getElem?_append_right le, List.getElem?_replicate, if_pos (by omega)] at same
    exact (Option.some.inj same).symm

theorem mem_itemsOfReads_of_queue {layout : Layout} {source : Source} {k : Nat} {token : Token}
    (item : (ofSource layout source).queue.get k = .ok token) (goesOn : token.isLast = false) :
    .ok token ∈ itemsOfReads layout 1 source.reads := by
  obtain ⟨last, isLast, items, ends⟩ := queue_of_source layout source
  by_cases inside : k < (itemsOfReads layout 1 source.reads).length
  · exact List.mem_of_getElem? (item ▸ items k inside)
  · cases (ends k (Nat.le_of_not_lt inside)).symm.trans item
    rw [goesOn] at isLast
    cases isLast

theorem spares_queue_of_source (layout : Layout) (source : Source) :
    let q := (ofSource layout source).queue
    let n := (itemsOfReads layout 1 source.reads).length
    ∃ last, last.isLast = true ∧ q.Spares n ∧ ∀ k ≥ n, q.get k = .ok last := by
  obtain ⟨last, isLast, items, ends⟩ := queue_of_source layout source
  refine ⟨last, isLast, fun k less token item => ?_, ends⟩
  have same := items k less
  rw [item] at same
  exact isLast_eq_false_of_mem_itemsOfReads (List.mem_of_getElem? same)

end TokenStream

/-! ## The words of a source -/

/-- The token was made of a run of visible characters, and is no end of a line or of the input. -/
def Token.IsWord (token : Token) : Prop :=
  ∃ chars, chars ≠ [] ∧ (∀ c ∈ chars, Text.isVisible c = true) ∧ token = .ofWord chars token.place

theorem isWord_of_piece {line : List Char} {n : Nat} {p : Piece} (member : p ∈ pieces line)
    {token : Token} (item : p.item line n = .ok token) : token.IsWord := by
  obtain ⟨before, after, _, _, fits⟩ := mem_pieces_iff.1 member
  obtain ⟨start, chars | c⟩ := p
  · cases item
    exact ⟨chars, fits.1, fits.2.1, rfl⟩
  · cases item

theorem isWord_of_mem_itemsOfLine {layout : Layout} {n : Nat} {line : List Char} {token : Token}
    (member : .ok token ∈ itemsOfLine layout n line) (some : ∀ reached, token.kind ≠ .ending reached) :
    token.IsWord := by
  rw [itemsOfLine, List.mem_append] at member
  obtain piece | ending := member
  · obtain ⟨p, inside, same⟩ := List.mem_map.1 piece
    exact isWord_of_piece inside same
  · split at ending
    · cases List.mem_singleton.1 ending
      exact absurd rfl (some _)
    · contradiction

theorem isWord_of_mem_itemsOfReads {layout : Layout} {n : Nat} {reads : List Read} {token : Token}
    (member : .ok token ∈ itemsOfReads layout n reads) (some : ∀ reached, token.kind ≠ .ending reached) :
    token.IsWord := by
  induction reads generalizing n with
  | nil => contradiction
  | cons read reads ih =>
    obtain ⟨line, text, _⟩ | ⟨message, fault, _⟩ := read.text_or_fault
    · rw [itemsOfReads_cons_of_text _ text, List.mem_append] at member
      exact member.elim (isWord_of_mem_itemsOfLine · some) ih
    · rw [itemsOfReads_cons_of_fault _ fault] at member
      obtain same | later := List.mem_cons.1 member
      · cases same
      · exact ih later

theorem isWord_of_queue {layout : Layout} {source : Source} {k : Nat} {token : Token}
    (item : (TokenStream.ofSource layout source).queue.get k = .ok token)
    (some : ∀ reached, token.kind ≠ .ending reached) : token.IsWord := by
  have goesOn : token.isLast = false := by
    rw [← Bool.not_eq_true, Token.isLast_iff]
    exact some _
  exact isWord_of_mem_itemsOfReads (TokenStream.mem_itemsOfReads_of_queue item goesOn) some

/-- A stream over a source is the queue of the items that it would give if tokens were only taken.
    * From some item on the queue holds nothing but the end of the input, always at the same place.
    * Whatever requests are made, in whatever order, they are answered as the queue answers them, and
      leave what the queue leaves.  To look at a token any number of times changes nothing.
    * The answers of the requests that removed something are the items from the front of the queue, each
      of them once and in its turn, and the stream goes on with the item behind them. -/
theorem answers_like_queue (layout : Layout) (source : Source) :
    let s := TokenStream.ofSource layout source
    let q := s.queue
    (∀ n, q.take n = s.results n) ∧
      (∃ n last, last.isLast = true ∧ q.Spares n ∧ ∀ k ≥ n, q.get k = .ok last) ∧
      ∀ requests,
        s.answers requests = Queue.answers q requests ∧
          (s.behind requests).queue = Queue.behind q requests ∧
          ∃ k, List.Forall₂ AnswerOf (keptOf requests (s.answers requests)) (q.take k) ∧
            (s.behind requests).queue = q.drop k := by
  intro s q
  refine ⟨s.take_queue, ⟨_, TokenStream.spares_queue_of_source layout source⟩, fun requests => ?_⟩
  · obtain ⟨answers, behind⟩ := s.answers_queue requests
    refine ⟨answers, behind, ?_⟩
    rw [answers, behind]
    exact q.exists_kept requests

end Polish
