import Polish.Number.Binary

/-! # Decimal magnitudes

The magnitude `coefficient · 10 ^ exponent`, the digits it is written with, and the double it
reads as.

* `digitsValue` is the number that a list of digits stands for.
* `Decimal.bits` is the correctly rounded double.  Magnitudes whose leading digit lies beyond all
  doubles are settled by its place alone, so that a long exponent costs nothing.
* `Decimal.positional` writes a magnitude without an exponent.
-/

namespace Polish.Number

def digitsValue (ds : List Char) : Nat :=
  ds.foldl (fun n d => 10 * n + (d.toNat - '0'.toNat)) 0

def digits (n : Nat) : List Char :=
  Nat.toDigits 10 n

structure Decimal where
  coefficient : Nat
  exponent : Int
  deriving DecidableEq, Repr

namespace Decimal

def ratio (d : Decimal) : Ratio :=
  Ratio.scale d.coefficient 10 d.exponent

/-- The place of the leading digit: the magnitude is below `10 ^ place`, and at least a tenth of
    it unless it is zero. -/
def place (d : Decimal) : Int :=
  (digits d.coefficient).length + d.exponent

def overflowPlace : Int := 311

def underflowPlace : Int := -330

def bits (d : Decimal) : Nat :=
  if d.coefficient = 0 then 0
  -- the place is known from the digits, however long the exponent is
  else if overflowPlace ≤ d.place then infinityBits
  else if d.place ≤ underflowPlace then 0
  else d.ratio.nearestBits

def trimZeros (d : Decimal) : Decimal :=
  if d.coefficient = 0 then ⟨0, 0⟩
  else
    let zeros := ((digits d.coefficient).reverse.takeWhile (· == '0')).length
    ⟨d.coefficient / Nat.pow 10 zeros, d.exponent + zeros⟩

/-- The digits of `d` with a point among them where the exponent is negative, and zeros on either
    side as far as the point is away from the digits. -/
def positional (d : Decimal) : List Char :=
  let ds := digits d.coefficient
  if 0 ≤ d.exponent then ds ++ List.replicate d.exponent.toNat '0'
  else
    let places := (-d.exponent).toNat
    if places < ds.length then
      ds.take (ds.length - places) ++ '.' :: ds.drop (ds.length - places)
    else '0' :: '.' :: List.replicate (places - ds.length) '0' ++ ds

end Decimal

end Polish.Number
