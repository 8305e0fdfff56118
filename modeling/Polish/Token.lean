import Polish.Diagnostic
import Polish.Number.Numeral

/-! # Tokens

A token is a word of a line, or the end of a line or of the input where a word could stand.  A word
that spells a numeral is a number; any other word stands for itself.
-/

namespace Polish

inductive Token.Kind where
  | number (value : Float)
  | word
  | ending (reached : Terminator)

structure Token where
  kind : Token.Kind
  lexeme : String
  place : Place

namespace Token

def ofWord (chars : List Char) (place : Place) : Token where
  kind := match Number.read? chars with
    | some value => .number value
    | none => .word
  lexeme := String.ofList chars
  place := place

def ofEnding (reached : Terminator) (place : Place) : Token where
  kind := .ending reached
  lexeme := ""
  place := place

def isLast (t : Token) : Bool :=
  match t.kind with
  | .ending .endOfInput => true
  | _ => false

theorem isLast_iff {t : Token} : t.isLast = true ↔ t.kind = .ending .endOfInput := by
  rw [isLast]
  split
  · next last => simp [last]
  · next other => simpa using other

@[simp]
theorem isLast_ofWord (chars : List Char) (place : Place) : (ofWord chars place).isLast = false := by
  simp only [ofWord, isLast]
  cases Number.read? chars <;> rfl

theorem kind_ofWord_ne_ending (chars : List Char) (place : Place) (reached : Terminator) :
    (ofWord chars place).kind ≠ .ending reached := by
  simp only [ofWord]
  cases Number.read? chars <;> simp

def describe (t : Token) : String :=
  match t.kind with
  | .number value => String.ofList (Number.write value)
  | .word => t.lexeme
  | .ending reached => reached.name

end Token

end Polish
