import Mathlib.Data.List.SplitBy
import Polish.Proofs.Lines

/-! # The stretches of a source

What one read takes from a source is a stretch of it: the bytes up to and including the next line
feed or the next failure, or to the end.  The stretches are cut from the source as a whole, and not
read after read.

* `readsFrom_eq_map_stretches`: the reads are those of the stretches, in order.
* `reads_append`: behind a line feed or a failure a source is read like a source of its own.
* `linesBy_flatten_textsOf`: the texts that were read are the lines of the text that they make up.
* `getLast?_of_reads`: a text that was read ends with a line feed, unless it is the last of all.
-/

namespace Polish

def Read.text? (read : Read) : Option (List Char) :=
  read.outcome.toOption

def Read.fault? (read : Read) : Option String :=
  match read.outcome with
  | .ok _ => none
  | .error message => some message

def textsOf (reads : List Read) : List (List Char) :=
  reads.filterMap Read.text?

theorem textsOf_cons (read : Read) (reads : List Read) :
    textsOf (read :: reads) = read.text?.toList ++ textsOf reads := by
  rw [textsOf, List.filterMap_cons]
  cases read.text? <;> rfl

def bytesIn : List Read → Nat
  | [] => 0
  | read :: reads => read.size + bytesIn reads

theorem bytesIn_append (first second : List Read) :
    bytesIn (first ++ second) = bytesIn first + bytesIn second := by
  induction first with
  | nil => rw [List.nil_append, bytesIn, Nat.zero_add]
  | cons read first ih => rw [List.cons_append, bytesIn, bytesIn, ih, Nat.add_assoc]

theorem Read.text?_eq_some_iff {read : Read} {text : List Char} :
    read.text? = some text ↔ read.outcome = .ok text := by
  rw [Read.text?]
  cases read.outcome <;> simp [Except.toOption]

theorem Read.fault?_eq_some_iff {read : Read} {message : String} :
    read.fault? = some message ↔ read.outcome = .error message := by
  rw [Read.fault?]
  cases read.outcome <;> simp

theorem Read.text_or_fault (read : Read) :
    (∃ text, read.text? = some text ∧ read.fault? = none) ∨
      ∃ message, read.fault? = some message ∧ read.text? = none := by
  rw [Read.text?, Read.fault?]
  cases read.outcome <;> simp [Except.toOption]

namespace Source

def Signal.stops : Signal → Bool
  | .byte b => b == lineFeed
  | .failure _ => true

def Signal.message? : Signal → Option String
  | .byte _ => none
  | .failure message => some message

def stretchesOf (signals : List Signal) : List (List Signal) :=
  signals.splitBy fun signal _ => !signal.stops

def stretches (source : Source) : List (List Signal) :=
  stretchesOf source.signals

end Source

/-- What is read of a stretch: if a failure ends it, nothing but the failure. -/
def Read.ofStretch (stretch : List Source.Signal) : Read :=
  match stretch.getLast?.bind Source.Signal.message? with
  | some message => ⟨(Source.bytesOf stretch).length, .error message⟩
  | none => .ofBytes (Source.bytesOf stretch)

/-- A stretch is a line of text if no failure ends it and its bytes are the UTF-8 form of the line. -/
theorem Read.text?_ofStretch {stretch : List Source.Signal} {line : List Char} :
    (Read.ofStretch stretch).text? = some line ↔
      stretch.getLast?.bind Source.Signal.message? = none ∧
        Text.encode line = Source.bytesOf stretch := by
  rw [ofStretch, ← Text.decode?_eq_some_iff]
  split
  · next message ends => simp [text?, Except.toOption, ends]
  · next plain =>
    rw [text?, ofBytes]
    cases Text.decode? (Source.bytesOf stretch) <;> simp [Except.toOption, plain]

theorem Read.fault?_ofStretch_of_invalid {stretch : List Source.Signal}
    (plain : stretch.getLast?.bind Source.Signal.message? = none)
    (invalid : ∀ line, Text.encode line ≠ Source.bytesOf stretch) :
    (Read.ofStretch stretch).fault? = some invalidText := by
  have decoded : Text.decode? (Source.bytesOf stretch) = none :=
    Option.eq_none_iff_forall_ne_some.2 fun line same => invalid line (Text.decode?_eq_some_iff.1 same)
  rw [ofStretch, plain, Read.fault?_eq_some_iff, ofBytes, decoded]

namespace Source

variable {pending : List UInt8} {signals : List Signal}

theorem bytesOf_append (first second : List Signal) :
    bytesOf (first ++ second) = bytesOf first ++ bytesOf second := by
  induction first with
  | nil => rfl
  | cons signal first ih => cases signal <;> simp [bytesOf, ih]

theorem bytesOf_map_byte (bytes : List UInt8) : bytesOf (bytes.map .byte) = bytes := by
  induction bytes with
  | nil => rfl
  | cons b bytes ih => rw [List.map_cons, bytesOf, ih]

/-! ## Cutting -/

theorem stops_of_mem_map_byte (unmarked : lineFeed ∉ pending) {signal : Signal}
    (member : signal ∈ pending.map Signal.byte) : signal.stops = false := by
  obtain ⟨b, inside, rfl⟩ := List.mem_map.1 member
  have other : b ≠ lineFeed := fun same => unmarked (same ▸ inside)
  simpa [Signal.stops] using other

theorem stretchesOf_map_byte (unmarked : lineFeed ∉ pending) (some : pending ≠ []) :
    stretchesOf (pending.map .byte) = [pending.map .byte] := by
  refine List.splitBy_of_isChain (by simpa using some) (List.Pairwise.isChain ?_)
  refine List.pairwise_of_forall_mem_list fun signal member _ _ => ?_
  simp [stops_of_mem_map_byte unmarked member]

theorem stretchesOf_append {lead : List Signal} (closed : ∀ last ∈ lead.getLast?, last.stops = true)
    (rest : List Signal) : stretchesOf (lead ++ rest) = stretchesOf lead ++ stretchesOf rest :=
  List.splitBy_append fun last isLast _ _ => by simp [closed last isLast]

theorem stretchesOf_append_stop (unmarked : lineFeed ∉ pending) {stop : Signal}
    (stops : stop.stops = true) (rest : List Signal) :
    stretchesOf (pending.map .byte ++ stop :: rest) =
      (pending.map .byte ++ [stop]) :: stretchesOf rest := by
  have one : stretchesOf (pending.map .byte ++ [stop]) = [pending.map .byte ++ [stop]] := by
    refine List.splitBy_of_isChain (by simp) (List.Pairwise.isChain (List.pairwise_append.2 ?_))
    refine ⟨List.pairwise_of_forall_mem_list fun signal member _ _ => ?_, List.pairwise_singleton _ _,
      fun signal member _ _ => ?_⟩ <;>
    simp [stops_of_mem_map_byte unmarked member]
  rw [← List.singleton_append, ← List.append_assoc, stretchesOf_append (by simp [stops]), one,
    List.singleton_append]

/-- A source is cut stretch by stretch: it holds none, or one that goes to the end, or one that ends
    with a stop, and what stands behind it. -/
theorem stretch_induction {motive : List Signal → Prop} (nil : motive [])
    (last : ∀ bytes : List UInt8, lineFeed ∉ bytes → bytes ≠ [] → motive (bytes.map .byte))
    (stop : ∀ (bytes : List UInt8) stop rest, lineFeed ∉ bytes → stop.stops = true → motive rest →
      motive (bytes.map .byte ++ stop :: rest))
    (signals : List Signal) : motive signals := by
  suffices h : ∀ bytes : List UInt8, lineFeed ∉ bytes → motive (bytes.map .byte ++ signals) from
    h [] List.not_mem_nil
  induction signals with
  | nil =>
    intro bytes unmarked
    rw [List.append_nil]
    by_cases some : bytes = []
    · exact some ▸ nil
    · exact last bytes unmarked some
  | cons signal signals ih =>
    intro bytes unmarked
    cases stops : signal.stops with
    | true => exact stop bytes signal signals unmarked stops (ih [] List.not_mem_nil)
    | false =>
      cases signal with
      | failure message => cases stops
      | byte b =>
        have other : b ≠ lineFeed := by simpa [Signal.stops] using stops
        have longer := ih (bytes ++ [b]) (by simp [unmarked, Ne.symm other])
        simpa using longer

/-! ## Reads and stretches -/

theorem ofStretch_map_byte (bytes : List UInt8) :
    Read.ofStretch (bytes.map .byte) = Read.ofBytes bytes := by
  have plain : (bytes.map Signal.byte).getLast?.bind Signal.message? = none := by
    rw [List.getLast?_map]
    cases bytes.getLast? <;> rfl
  rw [Read.ofStretch, plain, bytesOf_map_byte]

theorem ofStretch_lineFeed (bytes : List UInt8) :
    Read.ofStretch (bytes.map .byte ++ [.byte lineFeed]) = Read.ofBytes (bytes ++ [lineFeed]) := by
  rw [← ofStretch_map_byte, List.map_append, List.map_singleton]

theorem ofStretch_failure (bytes : List UInt8) (message : String) :
    Read.ofStretch (bytes.map .byte ++ [.failure message]) = ⟨bytes.length, .error message⟩ := by
  simp [Read.ofStretch, Signal.message?, bytesOf_append, bytesOf_map_byte, bytesOf]

theorem readsFrom_append_stop {bytes : List UInt8} (unmarked : lineFeed ∉ bytes) {stop : Signal}
    (stops : stop.stops = true) (rest : List Signal) :
    readsFrom pending (bytes.map .byte ++ stop :: rest) =
      Read.ofStretch ((pending.reverse ++ bytes).map .byte ++ [stop]) :: readsFrom [] rest := by
  induction bytes generalizing pending with
  | nil =>
    rw [List.map_nil, List.nil_append, List.append_nil]
    cases stop with
    | byte b =>
      obtain rfl : b = lineFeed := by simpa [Signal.stops] using stops
      rw [readsFrom, if_pos rfl, ofStretch_lineFeed, List.reverse_cons]
    | failure message => rw [readsFrom, ofStretch_failure, List.length_reverse]
  | cons b bytes ih =>
    obtain ⟨other, unmarked⟩ := not_or.1 (mt List.mem_cons.2 unmarked)
    rw [List.map_cons, List.cons_append, readsFrom, if_neg (Ne.symm other), ih unmarked,
      List.reverse_cons, List.append_assoc, List.singleton_append]

theorem readsFrom_map_byte {bytes : List UInt8} (unmarked : lineFeed ∉ bytes) (some : bytes ≠ []) :
    readsFrom [] (bytes.map .byte) = [.ofBytes bytes] := by
  rw [readsFrom_bytes List.not_mem_nil, List.reverse_nil, List.nil_append,
    linesBy_of_not_mem unmarked some, List.map_singleton]

/-- The reads of a source are those of its stretches, in order. -/
theorem readsFrom_eq_map_stretches (signals : List Signal) :
    readsFrom [] signals = (stretchesOf signals).map Read.ofStretch := by
  induction signals using stretch_induction with
  | nil => rfl
  | last bytes unmarked some =>
    rw [readsFrom_map_byte unmarked some, stretchesOf_map_byte unmarked some, List.map_singleton,
      ofStretch_map_byte]
  | stop bytes stop rest unmarked stops ih =>
    rw [readsFrom_append_stop unmarked stops, stretchesOf_append_stop unmarked stops, List.map_cons, ih]
    rfl

theorem reads_append {lead : List Signal} (closed : ∀ last ∈ lead.getLast?, last.stops = true)
    (rest : List Signal) : readsFrom [] (lead ++ rest) = readsFrom [] lead ++ readsFrom [] rest := by
  rw [readsFrom_eq_map_stretches, readsFrom_eq_map_stretches, readsFrom_eq_map_stretches,
    stretchesOf_append closed, List.map_append]

theorem bytesIn_readsFrom (signals : List Signal) :
    bytesIn (readsFrom [] signals) = (bytesOf signals).length := by
  have size : ∀ stretch, (Read.ofStretch stretch).size = (bytesOf stretch).length := by
    intro stretch
    rw [Read.ofStretch]
    split <;> rfl
  have total : ∀ stretches : List (List Signal), bytesIn (stretches.map Read.ofStretch) =
      (bytesOf stretches.flatten).length := by
    intro stretches
    induction stretches with
    | nil => rfl
    | cons stretch stretches ih =>
      rw [List.map_cons, bytesIn, size, ih, List.flatten_cons, bytesOf_append, List.length_append]
  rw [readsFrom_eq_map_stretches, total, stretchesOf, List.flatten_splitBy]

/-- A failure ends a stretch, and so every failure of a source ends one. -/
theorem filterMap_message?_stretchesOf (signals : List Signal) :
    (stretchesOf signals).filterMap (fun stretch => stretch.getLast?.bind Signal.message?) =
      signals.filterMap Signal.message? := by
  have silent : ∀ bytes : List UInt8, (bytes.map Signal.byte).filterMap Signal.message? = [] := by
    intro bytes
    simp [List.filterMap_map, Function.comp_def, Signal.message?]
  induction signals using stretch_induction with
  | nil => rfl
  | last bytes unmarked some =>
    rw [stretchesOf_map_byte unmarked some, silent, List.filterMap_cons, List.getLast?_map]
    cases bytes.getLast? <;> rfl
  | stop bytes stop rest unmarked stops ih =>
    rw [stretchesOf_append_stop unmarked stops, List.filterMap_append, silent, List.nil_append,
      List.filterMap_cons, List.filterMap_cons, List.getLast?_concat, ih, Option.bind_some]

/-! ## The texts that were read -/

theorem encode_of_text? {bytes : List UInt8} {text : List Char}
    (read : (Read.ofBytes bytes).text? = some text) : Text.encode text = bytes :=
  Read.encode_of_ofBytes (Read.text?_eq_some_iff.1 read)

theorem linesBy_encode_textsOf (signals : List Signal) :
    linesBy lineFeed ((textsOf (readsFrom [] signals)).flatMap Text.encode) =
      (textsOf (readsFrom [] signals)).map Text.encode := by
  induction signals using stretch_induction with
  | nil => rfl
  | last bytes unmarked some =>
    rw [readsFrom_map_byte unmarked some, textsOf_cons]
    cases read : (Read.ofBytes bytes).text? with
    | none => rfl
    | some text =>
      have same := encode_of_text? read
      simpa [textsOf, same] using linesBy_of_not_mem unmarked some
  | stop bytes stop rest unmarked stops ih =>
    rw [readsFrom_append_stop unmarked stops, textsOf_cons, List.reverse_nil, List.nil_append]
    cases stop with
    | failure message => simpa [ofStretch_failure, Read.text?, Except.toOption] using ih
    | byte b =>
      obtain rfl : b = lineFeed := by simpa [Signal.stops] using stops
      rw [ofStretch_lineFeed]
      cases read : (Read.ofBytes (bytes ++ [lineFeed])).text? with
      | none => exact ih
      | some text =>
        have same := encode_of_text? read
        simp only [Option.toList_some, List.singleton_append, List.flatMap_cons, List.map_cons, same,
          List.append_assoc, linesBy_append_mark unmarked, ih]

/-- What was read of a source are the lines of a text: the one that the source holds when all that was
    lost is left out. -/
theorem linesBy_flatten_textsOf (signals : List Signal) :
    linesBy '\n' (textsOf (readsFrom [] signals)).flatten = textsOf (readsFrom [] signals) := by
  have bytes := linesBy_encode_textsOf signals
  have flat : ∀ texts : List (List Char), Text.encode texts.flatten = texts.flatMap Text.encode := by
    intro texts
    induction texts with
    | nil => rfl
    | cons text texts ih => rw [List.flatten_cons, Text.encode_append, ih, List.flatMap_cons]
  rw [← flat, Text.linesBy_encode] at bytes
  refine List.map_injective_iff.2 (fun first second same => ?_) bytes
  have decoded := Text.decode?_encode first
  rw [same, Text.decode?_encode] at decoded
  exact (Option.some.inj decoded).symm

theorem getLast?_of_encode {text : List Char} {bytes : List UInt8}
    (ends : Text.encode text = bytes ++ [lineFeed]) : text.getLast? = some '\n' := by
  obtain rfl | ⟨before, c, rfl⟩ := List.eq_nil_or_concat' text
  · exact absurd ends.symm (by simp [Text.encode])
  · have single : Text.encode [c] = String.utf8EncodeChar c := List.flatMap_singleton _ _
    rw [Text.encode_append, single] at ends
    have last := congrArg List.getLast? ends
    rw [List.getLast?_append_of_ne_nil _ String.utf8EncodeChar_ne_nil, List.getLast?_concat] at last
    have same := Text.lineFeed_mem_utf8EncodeChar.1 (List.mem_of_getLast? last)
    rw [same, List.getLast?_concat]

theorem getLast?_of_reads {before later : List Read} {read : Read} {text : List Char}
    (reads : readsFrom [] signals = before ++ read :: later) (more : later ≠ [])
    (line : read.text? = some text) : text.getLast? = some '\n' := by
  induction signals using stretch_induction generalizing before with
  | nil => simp [readsFrom] at reads
  | last bytes unmarked some =>
    rw [readsFrom_map_byte unmarked some] at reads
    cases before <;> simp_all
  | stop bytes stop rest unmarked stops ih =>
    rw [readsFrom_append_stop unmarked stops, List.reverse_nil, List.nil_append] at reads
    cases before with
    | cons first before => exact ih (List.cons.inj reads).2
    | nil =>
      obtain ⟨rfl, _⟩ := List.cons.inj reads
      cases stop with
      | failure message => simp [ofStretch_failure, Read.text?, Except.toOption] at line
      | byte b =>
        obtain rfl : b = lineFeed := by simpa [Signal.stops] using stops
        rw [ofStretch_lineFeed] at line
        exact getLast?_of_encode (encode_of_text? line)

/-- Of a source that a stop closes every text that was read ends with a line feed. -/
theorem getLast?_of_closed {lead : List Signal} (closed : ∀ last ∈ lead.getLast?, last.stops = true)
    {read : Read} (member : read ∈ readsFrom [] lead) {text : List Char} (line : read.text? = some text) :
    text.getLast? = some '\n' := by
  obtain ⟨before, behind, split⟩ := List.append_of_mem member
  -- behind the stop there might be one more read
  have reads : readsFrom [] (lead ++ [.failure ""]) = before ++ read :: (behind ++ [⟨0, .error ""⟩]) := by
    rw [reads_append closed, split, List.append_assoc, List.cons_append]
    rfl
  exact getLast?_of_reads reads (by simp) line

theorem size_pos_of_text? {read : Read} (member : read ∈ readsFrom [] signals)
    (line : read.text?.isSome) : 0 < read.size := by
  induction signals using stretch_induction with
  | nil => contradiction
  | last bytes unmarked some =>
    rw [readsFrom_map_byte unmarked some] at member
    rw [List.mem_singleton.1 member]
    exact List.length_pos_iff.2 some
  | stop bytes stop rest unmarked stops ih =>
    rw [readsFrom_append_stop unmarked stops, List.reverse_nil, List.nil_append] at member
    obtain rfl | later := List.mem_cons.1 member
    · cases stop with
      | failure message => simp [ofStretch_failure, Read.text?, Except.toOption] at line
      | byte b =>
        rw [← List.map_singleton, ← List.map_append, ofStretch_map_byte]
        simp [Read.ofBytes]
    · exact ih later

end Source

end Polish
