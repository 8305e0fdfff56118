import Polish.Number.Shortest

/-! # Numerals

The two forms of a number in text.

* A *numeral* is what is read: an optional sign, digits with an optional point among, before or
  behind them, and an optional exponent.  `Numeral.read?` recognises a numeral and nothing else,
  so that words such as `inf` or `1e` stay words; its value is the nearest double.
* What is written is `write`: the shortest digits that read back, always without an exponent, and
  a word for infinity and for NaN.
-/

namespace Polish.Number

def isDigit (c : Char) : Bool :=
  '0' ≤ c && c ≤ '9'

structure Scale where
  negative : Bool := false
  digits : List Char := []
  deriving DecidableEq, Repr

def Scale.value (s : Scale) : Int :=
  if s.negative then -(digitsValue s.digits : Int) else digitsValue s.digits

structure Numeral where
  negative : Bool
  whole : List Char
  fraction : List Char
  scale : Scale
  deriving DecidableEq, Repr

namespace Numeral

def readSign : List Char → Bool × List Char
  | '-' :: rest => (true, rest)
  | '+' :: rest => (false, rest)
  | rest => (false, rest)

def readDigits (cs : List Char) : List Char × List Char :=
  (cs.takeWhile isDigit, cs.dropWhile isDigit)

def readFraction : List Char → List Char × List Char
  | '.' :: rest => readDigits rest
  | rest => ([], rest)

def readScale? : List Char → Option Scale
  | [] => some {}
  | c :: rest =>
    if c = 'e' ∨ c = 'E' then
      let (negative, rest) := readSign rest
      let (ds, rest) := readDigits rest
      if ds ≠ [] ∧ rest = [] then some ⟨negative, ds⟩ else none
    else none

/-- The numeral that the whole of `cs` spells, if it spells one.  A point alone is no number: there
    is a digit on one side of it at least. -/
def read? (cs : List Char) : Option Numeral :=
  let (negative, rest) := readSign cs
  let (whole, rest) := readDigits rest
  let (fraction, rest) := readFraction rest
  if whole = [] ∧ fraction = [] then none
  else (readScale? rest).map fun scale => ⟨negative, whole, fraction, scale⟩

def decimal (n : Numeral) : Decimal :=
  ⟨digitsValue (n.whole ++ n.fraction), n.scale.value - n.fraction.length⟩

def toFloat (n : Numeral) : Float :=
  ofMagnitude n.negative n.decimal.bits

end Numeral

def read? (cs : List Char) : Option Float :=
  (Numeral.read? cs).map Numeral.toFloat

def write (v : Float) : List Char :=
  let sign : List Char := if isNegative v then ['-'] else []
  if isNaN v then "NaN".toList
  else match Binary.ofFloat? v with
    | none => sign ++ "inf".toList
    | some b => sign ++ (shortest b (magnitudeBits v)).positional

end Polish.Number
