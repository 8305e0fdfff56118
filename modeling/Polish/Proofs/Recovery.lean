import Polish.Proofs.Lexing

/-! # Failed reads

A failed read loses the bytes that it has taken and leaves no other trace: behind it a stream goes on
as if these bytes and the failure had never been there.

* `itemsOfReads_append`: where a failure stands among the items.
* `filter_itemsOfReads`: without the failures of reads, the items are those of the lines that were read.
* `results_around_failed_reads` puts this together for a whole source.
-/

namespace Polish

/-- The message of a failed read. -/
def faultOf? : Except Failure Token → Option String
  | .error (.io message) => some message
  | _ => none

theorem itemsOfReads_cons_of_text {layout : Layout} {n : Nat} {read : Read} {line : List Char}
    (reads : List Read) (text : read.text? = some line) :
    itemsOfReads layout n (read :: reads) =
      itemsOfLine layout n line ++ itemsOfReads layout (n + 1) reads := by
  rw [itemsOfReads, Read.text?_eq_some_iff.1 text]

theorem itemsOfReads_cons_of_fault {layout : Layout} {n : Nat} {read : Read} {message : String}
    (reads : List Read) (fault : read.fault? = some message) :
    itemsOfReads layout n (read :: reads) =
      .error (.io message) :: itemsOfReads layout n reads := by
  rw [itemsOfReads, Read.fault?_eq_some_iff.1 fault]

theorem itemsOfReads_append (layout : Layout) (n : Nat) (first second : List Read) :
    itemsOfReads layout n (first ++ second) =
      itemsOfReads layout n first ++ itemsOfReads layout (n + (textsOf first).length) second := by
  induction first generalizing n with
  | nil => rfl
  | cons read first ih =>
    rw [List.cons_append, textsOf_cons]
    obtain ⟨line, text, _⟩ | ⟨message, fault, none⟩ := read.text_or_fault
    · rw [itemsOfReads_cons_of_text _ text, itemsOfReads_cons_of_text _ text, ih, text,
        List.append_assoc, Option.toList_some, List.length_append, List.length_singleton,
        Nat.add_assoc]
    · rw [itemsOfReads_cons_of_fault _ fault, itemsOfReads_cons_of_fault _ fault, ih, none]
      rfl

theorem faultOf?_of_mem_itemsOfLine {layout : Layout} {n : Nat} {line : List Char}
    {item : Except Failure Token} (member : item ∈ itemsOfLine layout n line) :
    faultOf? item = none := by
  rw [itemsOfLine, List.mem_append] at member
  obtain piece | ending := member
  · obtain ⟨⟨start, chars | c⟩, _, rfl⟩ := List.mem_map.1 piece <;> rfl
  · split at ending
    · obtain rfl := List.mem_singleton.1 ending
      rfl
    · contradiction

theorem filterMap_faultOf?_itemsOfReads (layout : Layout) (n : Nat) (reads : List Read) :
    (itemsOfReads layout n reads).filterMap faultOf? = reads.filterMap Read.fault? := by
  induction reads generalizing n with
  | nil => rfl
  | cons read reads ih =>
    obtain ⟨line, text, none⟩ | ⟨message, fault, _⟩ := read.text_or_fault
    · have silent : (itemsOfLine layout n line).filterMap faultOf? = [] :=
        List.filterMap_eq_nil_iff.2 fun _ => faultOf?_of_mem_itemsOfLine
      rw [itemsOfReads_cons_of_text _ text, List.filterMap_append, silent, List.nil_append, ih,
        List.filterMap_cons_none none]
    · rw [itemsOfReads_cons_of_fault _ fault, List.filterMap_cons_some fault, ← ih n]
      rfl

/-- Without the failures of reads, what is left are the items of the lines that were read. -/
theorem filter_itemsOfReads (layout : Layout) (n : Nat) (reads : List Read) :
    (itemsOfReads layout n reads).filter (fun item => (faultOf? item).isNone) =
      itemsOfLines layout n (textsOf reads) := by
  induction reads generalizing n with
  | nil => rfl
  | cons read reads ih =>
    rw [textsOf_cons]
    obtain ⟨line, text, _⟩ | ⟨message, fault, none⟩ := read.text_or_fault
    · have all : (itemsOfLine layout n line).filter (fun item => (faultOf? item).isNone) =
          itemsOfLine layout n line :=
        List.filter_eq_self.2 fun item member => by rw [faultOf?_of_mem_itemsOfLine member]; rfl
      rw [itemsOfReads_cons_of_text _ text, List.filter_append, all, ih, text]
      rfl
    · rw [itemsOfReads_cons_of_fault _ fault, none]
      exact ih n

theorem isLast_eq_false_of_mem_itemsOfReads {layout : Layout} {n : Nat} {reads : List Read}
    {token : Token} (member : .ok token ∈ itemsOfReads layout n reads) : token.isLast = false := by
  have kept : .ok token ∈ itemsOfLines layout n (textsOf reads) := by
    rw [← filter_itemsOfReads]
    exact List.mem_filter.2 ⟨member, rfl⟩
  exact isLast_eq_false_of_mem_itemsOfLines kept

theorem signals_cut (before after : Source) (pieces : List (List UInt8)) :
    Source.signals (before ++ (pieces.map .data ++ after)) =
      Source.signals (before ++ .data pieces.flatten :: after) := by
  have cut : (pieces.map Event.data).flatMap Source.signalsOf = pieces.flatten.map .byte := by
    rw [List.flatMap_map, List.map_flatten]
    rfl
  rw [Source.signals, Source.signals, List.flatMap_append, List.flatMap_append, List.flatMap_append,
    List.flatMap_cons, cut]
  rfl

theorem results_of_source (layout : Layout) {source : Source} {reads : List Read}
    (made : source.reads = reads) (m : Nat) :
    (TokenStream.ofSource layout source).results ((itemsOfReads layout 1 reads).length + (m + 1)) =
      itemsOfReads layout 1 reads ++ List.replicate (m + 1) (.ok (endingOf .endOfInput
        ((textsOf reads).getLast?.getD []) (max (textsOf reads).length 1))) := by
  have results := TokenStream.results_of_reads (s := .ofSource layout source) ⟨rfl, rfl⟩ rfl made m
  rwa [show (TokenStream.ofSource layout source).line + (textsOf reads).length =
    (textsOf reads).length from Nat.zero_add _] at results

/-- The items of any source, in both layouts.
    * They are those of its stretches: for a stretch that is a line of text the items of the line,
      with the number that it has among these lines, and for any other stretch one failure.  Behind
      them comes the end of the input, again and again.
    * Without the failures they are the items of the source that holds just the lines of text.
    * A stretch that a failure ends is no line of text, and is answered with the message of the
      failure, whatever its bytes are.  Each failure of the source ends one stretch.  Any other stretch
      that is no line of text is answered with a message of its own.
    * A failure stands behind the items of the stretches before it, and in front of the others.
    * How the bytes between two failures are cut into pieces makes no difference. -/
theorem results_around_failed_reads (layout : Layout) (source : Source) :
    let reads := source.stretches.map Read.ofStretch
    let lines := textsOf reads
    let items := itemsOfReads layout 1 reads
    let kept := items.filter fun item => (faultOf? item).isNone
    let plain : Source := .ofString (String.ofList lines.flatten)
    let last := endingOf .endOfInput (lines.getLast?.getD []) (max lines.length 1)
    (∀ m, (TokenStream.ofSource layout source).results (items.length + (m + 1)) =
        items ++ List.replicate (m + 1) (.ok last)) ∧
      (∀ m, (TokenStream.ofSource layout plain).results (kept.length + (m + 1)) =
        kept ++ List.replicate (m + 1) (.ok last)) ∧
      linesBy '\n' lines.flatten = lines ∧
      items.filterMap faultOf? = reads.filterMap Read.fault? ∧
      (∀ stretch line, (Read.ofStretch stretch).text? = some line ↔
        stretch.getLast?.bind Source.Signal.message? = none ∧
          Text.encode line = Source.bytesOf stretch) ∧
      (∀ stretch message, stretch.getLast? = some (.failure message) →
        (Read.ofStretch stretch).fault? = some message) ∧
      (∀ stretch, stretch.getLast?.bind Source.Signal.message? = none →
        (∀ line, Text.encode line ≠ Source.bytesOf stretch) →
        (Read.ofStretch stretch).fault? = some invalidText) ∧
      (source.stretches.filterMap fun stretch => stretch.getLast?.bind Source.Signal.message?) =
        source.signals.filterMap Source.Signal.message? ∧
      (∀ before read after message, reads = before ++ read :: after → read.fault? = some message →
        items = itemsOfReads layout 1 before ++
          .error (.io message) :: itemsOfReads layout (1 + (textsOf before).length) after) ∧
      ∀ before (pieces : List (List UInt8)) after, source = before ++ .data pieces.flatten :: after → ∀ n,
        (TokenStream.ofSource layout (before ++ (pieces.map .data ++ after))).results n =
          (TokenStream.ofSource layout source).results n := by
  intro reads lines items kept plain last
  have made : source.reads = reads := Source.readsFrom_eq_map_stretches source.signals
  have whole : linesBy '\n' lines.flatten = lines := by
    have := Source.linesBy_flatten_textsOf source.signals
    rwa [show Source.readsFrom [] source.signals = reads from made] at this
  refine ⟨?_, ?_, whole, ?_, fun _ _ => Read.text?_ofStretch, ?_,
    fun _ => Read.fault?_ofStretch_of_invalid, ?_, ?_, ?_⟩
  · exact results_of_source layout made
  · intro m
    have holds := Source.holds_ofString (String.ofList lines.flatten)
    rw [String.toList_ofList] at holds
    have plainReads : plain.reads = lines.map TokenStream.readOf := by
      rw [Source.reads_of_text holds, whole]
      rfl
    have results := results_of_source layout plainReads m
    rw [TokenStream.itemsOfReads_map_readOf, TokenStream.textsOf_map_readOf] at results
    rwa [show kept = itemsOfLines layout 1 lines from filter_itemsOfReads layout 1 reads]
  · exact filterMap_faultOf?_itemsOfReads layout 1 reads
  · intro stretch message ends
    rw [Read.ofStretch, ends]
    rfl
  · exact Source.filterMap_message?_stretchesOf source.signals
  · intro before read after message same fault
    rw [show items = itemsOfReads layout 1 reads from rfl, same, itemsOfReads_append,
      itemsOfReads_cons_of_fault _ fault]
  · intro before pieces after same n
    rw [same, TokenStream.ofSource, TokenStream.ofSource, Source.reads, Source.reads, signals_cut]

/-- A failure in the middle of the second line, and a fourth line that is no text. -/
theorem results_around_two_lost_lines :
    let source : Source := [.data (Text.encode "1\n2 é".toList), .failure "reset",
      .data (Text.encode "+\n".toList), .data [0xFF, 0x0A], .data (Text.encode "3".toList)]
    let reads := source.stretches.map Read.ofStretch
    let items : List (Except Failure Token) :=
      [.ok ⟨.number 1, "1", ⟨1, 0, 1⟩⟩,
        .ok ⟨.ending .endOfLine, "", ⟨1, 1, 1⟩⟩,
        .error (.io "reset"),
        .ok ⟨.word, "+", ⟨2, 0, 1⟩⟩,
        .ok ⟨.ending .endOfLine, "", ⟨2, 1, 1⟩⟩,
        .error (.io "stream did not contain valid UTF-8"),
        .ok ⟨.number 3, "3", ⟨3, 0, 1⟩⟩,
        .ok ⟨.ending .endOfInput, "", ⟨3, 1, 1⟩⟩]
    textsOf reads = ["1\n".toList, "+\n".toList, "3".toList] ∧
      (itemsOfReads .linewise 1 reads).filterMap faultOf? =
        ["reset", "stream did not contain valid UTF-8"] ∧
      (TokenStream.ofSource .linewise source).results 8 = items ∧
      itemsOfReads .linewise 1 reads ++ [.ok (endingOf .endOfInput "3".toList 3)] = items := by
  intro source reads shown
  have texts : textsOf reads = ["1\n".toList, "+\n".toList, "3".toList] := by decide +kernel
  have faults : reads.filterMap Read.fault? = ["reset", "stream did not contain valid UTF-8"] := by
    decide +kernel
  have count : (itemsOfReads .linewise 1 reads).length = 7 := by decide +kernel
  obtain ⟨items, _, _, messages, _⟩ := results_around_failed_reads .linewise source
  have items := items 0
  rw [count, show textsOf (source.stretches.map Read.ofStretch) = _ from texts] at items
  have taken : (TokenStream.ofSource .linewise [.data (Text.encode "1\n2 é".toList), .failure "reset",
      .data (Text.encode "+\n".toList), .data [0xFF, 0x0A], .data (Text.encode "3".toList)]).results 8 =
    shown := rfl
  exact ⟨texts, messages.trans faults, taken, items.symm.trans taken⟩

end Polish
