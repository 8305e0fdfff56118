import Mathlib.Data.List.Basic
import Polish.Diagnostic

/-! # The last settings of a diagnostic

A diagnostic starts as its cause alone, and is then given a note, a file, the text of a line, a place
and another number for its line, in any order and any number of times.  What it shows is told by the
last of each.

* `lastOf` is the last setting of one kind, and `get_settle` says that the diagnostic has it.
* `place_settle_of_lines` and `settle_append`: a place stays, but for the number of its line.
* `settle_swap`: the order of settings of different fields makes no difference.
* `render_congr`: the text is told by the message, the place, the note, the file and the line.
* `last_settings_render` puts this together.
-/

namespace Polish

inductive Setting where
  | note (text : String)
  | file (name : String)
  | code (text : String)
  | place (p : Place)
  | line (number : Nat)

namespace Setting

/-- What a setting is about.  To number the line is to change the place. -/
inductive Field where
  | note
  | file
  | code
  | place
  deriving DecidableEq

def field : Setting → Field
  | note _ => .note
  | file _ => .file
  | code _ => .code
  | place _ | line _ => .place

def note? : Setting → Option String
  | note text => some text
  | _ => none

def file? : Setting → Option String
  | file name => some name
  | _ => none

def code? : Setting → Option String
  | code text => some text
  | _ => none

def line? : Setting → Option Nat
  | line number => some number
  | _ => none

def apply (d : Diagnostic) : Setting → Diagnostic
  | note text => d.withNote text
  | file name => d.withFile name
  | code text => d.withCode text
  | place p => d.withPlace p
  | line number => d.renumber number

end Setting

def settle (d : Diagnostic) (settings : List Setting) : Diagnostic :=
  settings.foldl Setting.apply d

/-- The last setting of one kind. -/
def lastOf {α : Type} (kind : Setting → Option α) (settings : List Setting) : Option α :=
  (settings.filterMap kind).getLast?

variable {d d' : Diagnostic} {settings before after : List Setting} {first second : Setting}

theorem settle_cons (d : Diagnostic) (first : Setting) (settings : List Setting) :
    settle d (first :: settings) = settle (first.apply d) settings := rfl

theorem settle_append (d : Diagnostic) (before after : List Setting) :
    settle d (before ++ after) = settle (settle d before) after :=
  List.foldl_append

theorem lastOf_cons {α : Type} (kind : Setting → Option α) (first : Setting) (settings : List Setting) :
    lastOf kind (first :: settings) = (lastOf kind settings).or (kind first) := by
  cases given : kind first with
  | none => rw [lastOf, List.filterMap_cons_none given, Option.or_none, lastOf]
  | some value =>
    rw [lastOf, List.filterMap_cons_some given, List.getLast?_cons, lastOf]
    cases (settings.filterMap kind).getLast? <;> rfl

/-! ## What a diagnostic has -/

/-- What one setting replaces, the last of many has replaced. -/
theorem get_settle {α : Type} {get : Diagnostic → Option α} {kind : Setting → Option α}
    (step : ∀ d setting, get (setting.apply d) = (kind setting).or (get d)) (d : Diagnostic)
    (settings : List Setting) : get (settle d settings) = (lastOf kind settings).or (get d) := by
  induction settings generalizing d with
  | nil => rfl
  | cons first settings ih => rw [settle_cons, ih, step, lastOf_cons, Option.or_assoc]

theorem note_settle (d : Diagnostic) (settings : List Setting) :
    (settle d settings).note = (lastOf Setting.note? settings).or d.note :=
  get_settle (fun _ setting => by cases setting <;> rfl) d settings

theorem file_settle (d : Diagnostic) (settings : List Setting) :
    (settle d settings).file = (lastOf Setting.file? settings).or d.file :=
  get_settle (fun _ setting => by cases setting <;> rfl) d settings

theorem code_settle (d : Diagnostic) (settings : List Setting) :
    (settle d settings).code = (lastOf Setting.code? settings).or d.code :=
  get_settle (fun _ setting => by cases setting <;> rfl) d settings

theorem cause_settle (d : Diagnostic) (settings : List Setting) :
    (settle d settings).cause = d.cause := by
  induction settings generalizing d with
  | nil => rfl
  | cons first settings ih =>
    rw [settle_cons, ih]
    cases first <;> rfl

/-- As long as no other place is given, only the number of the line changes. -/
theorem place_settle_of_lines (d : Diagnostic) (unplaced : ∀ p, Setting.place p ∉ settings) :
    (settle d settings).place =
      d.place.map fun p => { p with line := (lastOf Setting.line? settings).getD p.line } := by
  induction settings generalizing d with
  | nil => exact Option.map_id'.symm
  | cons first settings ih =>
    have others (p : Place) : Setting.place p ∉ settings := fun member =>
      unplaced p (List.mem_cons_of_mem _ member)
    rw [settle_cons, ih _ others, lastOf_cons]
    cases first with
    | note | file | code =>
      simp only [Setting.line?, Option.or_none]
      rfl
    | place p => exact absurd List.mem_cons_self (unplaced p)
    | line number =>
      have renumbered : (Setting.apply d (.line number)).place =
          d.place.map fun p => { p with line := number } := rfl
      rw [renumbered, Option.map_map]
      cases lastOf Setting.line? settings <;> rfl

/-! ## What makes no difference -/

theorem apply_swap (differ : first.field ≠ second.field) (d : Diagnostic) :
    first.apply (second.apply d) = second.apply (first.apply d) := by
  cases first <;> cases second <;> first | rfl | exact absurd rfl differ

theorem settle_swap (differ : first.field ≠ second.field) (d : Diagnostic)
    (before after : List Setting) :
    settle d (before ++ second :: first :: after) = settle d (before ++ first :: second :: after) := by
  rw [settle_append, settle_append, settle_cons, settle_cons, settle_cons, settle_cons, apply_swap differ]

theorem render_congr (message : d'.cause.message = d.cause.message) (place : d'.place = d.place)
    (note : d'.note = d.note) (file : d'.file = d.file) (code : d'.code = d.code) :
    d'.render = d.render := by
  simp only [Diagnostic.render, Diagnostic.excerpt, Diagnostic.position, message, place, note, file, code]

/-! ## What is shown -/

/-- What a diagnostic shows is told by its last settings.
    * Its place is the last place that was given, with the last number that its line got behind that.
      Without a place it has none, and numbers are lost.
    * Its text depends on nothing but the message, the place, and the last note, file and line.
      Neighbours may be swapped, unless they are of the same field; a number counts as of the place.
    * The text is the message alone without a place, and the message with the position without a line.
      With both it is five rows: the message, the position, an empty margin, the line behind its number
      and without the blanks at its end, and behind a margin of the same width the carets with the
      note.  There is at least one caret.

    Whether a machine has room for this text is told by `Diagnostic.renderInRoom_eq_ok_iff`. -/
theorem last_settings_render (cause : Cause) (settings : List Setting) :
    let d := settle { cause := cause } settings
    let file := (lastOf Setting.file? settings).getD "<input>"
    let position (p : Place) := file ++ ":" ++ toString p.line ++ ":" ++ toString (p.start + 1)
    ((∀ p, Setting.place p ∉ settings) → d.place = none) ∧
      (∀ before p after, settings = before ++ .place p :: after → (∀ q, Setting.place q ∉ after) →
        d.place = some { p with line := (lastOf Setting.line? after).getD p.line }) ∧
      (∀ cause' settings', cause'.message = cause.message →
        let d' := settle { cause := cause' } settings'
        d'.place = d.place → lastOf Setting.note? settings' = lastOf Setting.note? settings →
          lastOf Setting.file? settings' = lastOf Setting.file? settings →
          lastOf Setting.code? settings' = lastOf Setting.code? settings → d'.render = d.render) ∧
      (∀ before first second after, first.field ≠ second.field →
        settings = before ++ first :: second :: after →
        settle { cause := cause } (before ++ second :: first :: after) = d) ∧
      (d.place = none → d.render = cause.message) ∧
      (∀ p, d.place = some p → lastOf Setting.code? settings = none →
        d.render = cause.message ++ " @ " ++ position p) ∧
      ∀ p code, d.place = some p → lastOf Setting.code? settings = some code →
        let kept := Text.trimEnd code.toList
        let gutter := String.ofList (List.replicate (toString p.line).length ' ')
        (∃ blanks, code.toList = kept ++ blanks ∧ ∀ c ∈ blanks, Text.isBlank c = true) ∧
          (∀ c ∈ kept.getLast?, Text.isBlank c = false) ∧
          gutter.length = (toString p.line).length ∧
          d.render = "\n".intercalate
            [cause.message,
              " --> " ++ position p,
              gutter ++ " |",
              toString p.line ++ " | " ++ String.ofList kept,
              gutter ++ " | " ++ String.ofList (List.replicate p.start ' ') ++
                String.ofList (List.replicate (max 1 (p.stop - p.start)) '^') ++
                ((lastOf Setting.note? settings).map (" " ++ ·)).getD ""] := by
  intro d file position
  have causeIs : d.cause = cause := cause_settle _ _
  have noteIs : d.note = lastOf Setting.note? settings := (note_settle _ _).trans Option.or_none
  have fileIs : d.file = lastOf Setting.file? settings := (file_settle _ _).trans Option.or_none
  have codeIs : d.code = lastOf Setting.code? settings := (code_settle _ _).trans Option.or_none
  have positionIs (p : Place) : d.position p = position p := by
    rw [Diagnostic.position, fileIs]
    rfl
  refine ⟨fun unplaced => place_settle_of_lines _ unplaced, ?_, ?_, ?_, ?_, ?_, ?_⟩
  · intro before p after whole unplaced
    have split : d = settle { cause := cause } (before ++ .place p :: after) := congrArg (settle _) whole
    rw [split, settle_append, settle_cons, place_settle_of_lines _ unplaced]
    rfl
  · intro cause' settings' message d' place note file code
    refine render_congr ?_ place ?_ ?_ ?_
    · rw [cause_settle, causeIs, message]
    · rw [noteIs, note_settle, note, Option.or_none]
    · rw [fileIs, file_settle, file, Option.or_none]
    · rw [codeIs, code_settle, code, Option.or_none]
  · intro before first second after differ whole
    have split : d = settle { cause := cause } (before ++ first :: second :: after) :=
      congrArg (settle _) whole
    rw [split, settle_swap differ]
  · intro unplaced
    rw [Diagnostic.render, unplaced, causeIs]
  · intro p placed uncoded
    rw [Diagnostic.render, placed, codeIs, uncoded, causeIs, ← positionIs]
  · intro p code placed coded
    obtain ⟨blanks, solid⟩ := Text.exists_eq_trimEnd_append code.toList
    have width : (String.ofList (List.replicate (toString p.line).length ' ')).length =
        (toString p.line).length := by
      rw [String.length_ofList, List.length_replicate]
    refine ⟨blanks, solid, width, ?_⟩
    rw [Diagnostic.render, placed, codeIs, coded, causeIs, ← positionIs, ← noteIs]
    simp only [Diagnostic.excerpt, Diagnostic.repeated, Place.width, String.append_assoc]
    cases d.note <;> rfl

/-- A place whose end is before its start, on a line that gets another number. -/
theorem last_settings_render_reversed :
    (settle { cause := .other "oops" } [.line 3, .place ⟨1, 4, 2⟩, .code "+ 1 2 \n", .line 12,
      .note "here"]).render = "oops\n --> <input>:12:5\n   |\n12 | + 1 2\n   |     ^ here" := by
  obtain ⟨_, placed, _, _, _, _, shown⟩ := last_settings_render (.other "oops")
    [.line 3, .place ⟨1, 4, 2⟩, .code "+ 1 2 \n", .line 12, .note "here"]
  have place := placed [.line 3] ⟨1, 4, 2⟩ [.code "+ 1 2 \n", .line 12, .note "here"] rfl (by simp)
  obtain ⟨_, _, _, rendered⟩ := shown _ _ place rfl
  rw [rendered]
  decide +kernel

end Polish
