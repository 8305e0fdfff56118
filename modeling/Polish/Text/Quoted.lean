import Polish.Text.Combining
import Polish.Text.Printable

/-! # Quoted text

Text is quoted so that every character of it can be seen: a few characters have an escape of two
characters, every other character that is not printable or that combines with its neighbour is
given by its code point in braces, and all others stand for themselves.
-/

namespace Polish.Text

def escapeCodePoint (c : Char) : List Char :=
  ['\\', 'u', '\x7b'] ++ Nat.toDigits 16 c.toNat ++ ['\x7d']

def escape (c : Char) : List Char :=
  match c with
  | '\x00' => ['\\', '0']
  | '\t' => ['\\', 't']
  | '\n' => ['\\', 'n']
  | '\r' => ['\\', 'r']
  | '"' => ['\\', '"']
  | '\\' => ['\\', '\\']
  | c => if isCombining c || !isPrintable c then escapeCodePoint c else [c]

def quote (s : String) : String :=
  String.ofList ('"' :: s.toList.flatMap escape ++ ['"'])

end Polish.Text
