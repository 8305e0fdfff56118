import Polish.Diagnostic

/-! # The rows of a diagnostic

The text of a diagnostic with a place and a line is five rows, whatever the line and the message hold.

* `OneRow` says that a text has no line feed; `Cause.oneRow_message` holds because no word that a
  message repeats has one, and a quoted character never has.
* `splitOn_render` are the rows.
* `exists_excerpt_eq` says where the carets are: under the columns of the place, or under its first
  column when it is empty.
-/

namespace Polish

def OneRow (s : String) : Prop :=
  '\n' ∉ s.toList

/-! ## Numbers and quotes -/

@[simp]
theorem lineFeed_not_mem_toDigits {base : Nat} (positive : 1 < base) (n : Nat) :
    '\n' ∉ Nat.toDigits base n := by
  induction n using Nat.strongRecOn with
  | ind n ih =>
    have digit (d : Nat) : '\n' ≠ d.digitChar := (Nat.digitChar_ne '\n' (by decide)).symm
    rw [Nat.toDigits_eq_if positive]
    split
    · exact mt List.mem_singleton.1 (digit n)
    · next large =>
      have less : n / base < n := Nat.div_lt_self (by omega) positive
      rw [List.mem_append, List.mem_singleton, not_or]
      exact ⟨ih _ less, digit (n % base)⟩

@[simp]
theorem lineFeed_not_mem_escape (c : Char) : '\n' ∉ Text.escape c := by
  unfold Text.escape
  -- six characters have an escape of their own, the line feed among them
  split
  any_goals decide
  next other _ _ _ =>
    split
    · simp [Text.escapeCodePoint]
    · simpa using Ne.symm other

/-! ## Rows -/

/-- The text that a message repeats as it is. -/
def Cause.repeated? : Cause → Option String
  | strayCharacter _ | missingExpression _ => none
  | unknownOperator symbol | missingOperand symbol _ _ _ => some symbol
  | secondExpression lexeme => some lexeme
  | other message => some message

theorem Cause.oneRow_message {cause : Cause} (repeats : ∀ text ∈ cause.repeated?, OneRow text) :
    OneRow cause.message := by
  cases cause with
  | strayCharacter c =>
    show OneRow ("unexpected character " ++ Text.quote (String.singleton c))
    simp [OneRow, Text.quote]
  | unknownOperator symbol =>
    have plain : '\n' ∉ symbol.toList := repeats symbol rfl
    show OneRow ("unknown operator `" ++ symbol ++ "`")
    simp [OneRow, plain]
  | missingExpression reached =>
    show OneRow ("expected an expression, found " ++ reached.name)
    cases reached <;> simp [OneRow, Terminator.name]
  | missingOperand symbol arity found reached =>
    have plain : '\n' ∉ symbol.toList := repeats symbol rfl
    show OneRow ("operator `" ++ symbol ++ "` expects " ++ toString arity ++ " operands, found "
      ++ toString found)
    simp [OneRow, plain]
  | secondExpression lexeme =>
    have plain : '\n' ∉ lexeme.toList := repeats lexeme rfl
    show OneRow ("expected end of line after expression, found `" ++ lexeme ++ "`")
    simp [OneRow, plain]
  | other message => exact repeats message rfl

theorem Cause.plain_note {cause : Cause} :
    ∀ note ∈ cause.note?, OneRow note ∧ '^' ∉ note.toList := by
  intro note given
  cases cause with
  | missingOperand symbol arity found reached =>
    cases given
    cases reached <;> simp [OneRow, Terminator.name]
  | secondExpression lexeme =>
    cases given
    simp [OneRow]
  | _ => cases given

def Place.marginWidth (place : Place) : Nat :=
  (toString place.line).length + 3

namespace Diagnostic

variable {d : Diagnostic} {place : Place} {code : String}

theorem oneRow_excerpt (file : ∀ file ∈ d.file, OneRow file) (note : ∀ note ∈ d.note, OneRow note)
    (text : '\n' ∉ Text.trimEnd code.toList) : ∀ row ∈ d.excerpt place code, OneRow row := by
  have named : '\n' ∉ (d.file.getD unnamed).toList := by
    cases given : d.file with
    | none => simp [unnamed]
    | some name => exact file name given
  intro row member
  simp only [excerpt, List.mem_cons, List.not_mem_nil, or_false] at member
  -- the rows in their order: the position, the gap, the line, and the carets with the note
  obtain rfl | rfl | rfl | rfl := member
  · simp [OneRow, position, named]
  · simp [OneRow, repeated]
  · simp [OneRow, text]
  · cases given : d.note with
    | none => simp [OneRow, repeated]
    | some remark =>
      have plain : '\n' ∉ remark.toList := note remark given
      simp [OneRow, repeated, plain]

theorem splitOn_render (atPlace : d.place = some place) (onLine : d.code = some code)
    (message : OneRow d.cause.message) (file : ∀ file ∈ d.file, OneRow file)
    (note : ∀ note ∈ d.note, OneRow note) (text : '\n' ∉ Text.trimEnd code.toList) :
    d.render.toList.splitOn '\n' =
      (d.cause.message :: d.excerpt place code).map String.toList := by
  have rendered : d.render = "\n".intercalate (d.cause.message :: d.excerpt place code) := by
    rw [render, atPlace, onLine]
  have separator : "\n".toList = ['\n'] := by simp
  rw [rendered, String.toList_intercalate, separator, List.splitOn_intercalate]
  -- the rows can be told apart, as none of them has a line feed of its own
  · intro row member
    obtain ⟨s, given, rfl⟩ := List.mem_map.1 member
    cases List.mem_cons.1 given with
    | inl first => exact first ▸ message
    | inr later => exact oneRow_excerpt file note text s later
  · exact List.cons_ne_nil _ _

theorem drop_marginWidth {margin s : String} (length : margin.length = (toString place.line).length) :
    (margin ++ " | " ++ s).toList.drop place.marginWidth = s.toList := by
  have bar : " | ".toList.length = 3 := by simp
  have width : (margin ++ " | ").toList.length = place.marginWidth := by
    rw [String.toList_append, List.length_append, String.length_toList, length, bar,
      Place.marginWidth]
  rw [String.toList_append, List.drop_left' width]

theorem getElem?_carets {start width i : Nat} {remark : List Char} (plain : '^' ∉ remark) :
    (List.replicate start ' ' ++ (List.replicate width '^' ++ remark))[i]? = some '^' ↔
      start ≤ i ∧ i < start + width := by
  rw [List.getElem?_append, List.length_replicate]
  split
  · next left => simp [left, Nat.not_le_of_lt left]
  · next right =>
    rw [List.getElem?_append, List.length_replicate]
    split
    · next inside =>
      simp only [List.getElem?_replicate, inside, if_true, true_iff]
      omega
    · next behind =>
      have none : remark[i - start - width]? ≠ some '^' := fun found =>
        plain (List.mem_of_getElem? found)
      simp only [none, false_iff]
      omega

/-- Behind the margin the third row of an excerpt is the line, and the fourth has carets under the
    columns of the place, or under its first column when it is empty. -/
theorem exists_excerpt_eq (d : Diagnostic) (place : Place) (code : String)
    (note : ∀ note ∈ d.note, '^' ∉ note.toList) :
    ∃ position gap lineRow caretRow : String,
      d.excerpt place code = [position, gap, lineRow, caretRow] ∧
        lineRow.toList.drop place.marginWidth = Text.trimEnd code.toList ∧
        ∀ i, (caretRow.toList.drop place.marginWidth)[i]? = some '^' ↔
          place.start ≤ i ∧ i < max place.stop (place.start + 1) := by
  refine ⟨_, _, _, _, rfl, ?_, fun i => ?_⟩
  · rw [drop_marginWidth rfl, String.toList_ofList]
  · have margin : (repeated (toString place.line).length ' ').length =
        (toString place.line).length := by
      simp [repeated]
    rw [String.append_assoc, drop_marginWidth margin]
    simp only [String.toList_append, repeated, String.toList_ofList, List.append_assoc]
    rw [getElem?_carets, Place.width]
    · omega
    · cases given : d.note with
      | none => simp
      | some remark =>
        have plain := note remark given
        simp [plain]

end Diagnostic

end Polish
