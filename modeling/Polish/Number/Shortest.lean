import Polish.Number.Decimal

/-! # The shortest decimal of a double

A double is written with the fewest digits that read back as the same double.  On the grid of
decimals with a given number of digits only the two neighbours of the value come into question:
if any point of the grid reads back, so does one of them.  The first grid with a neighbour that
reads back decides; where both do, the nearer one is taken, and the upper one if the value lies in
the middle.
-/

namespace Polish.Number

/-- The place of the leading digit of a positive magnitude `r`: the magnitude is below
    `10 ^ place` and at least a tenth of it.  Below one the digits of the reciprocal tell how many
    zeros follow the point; the reciprocal of a power of ten lies on the lower side. -/
def Ratio.place (r : Ratio) : Int :=
  if r.den ≤ r.num then (digits r.floor).length
  else 1 - (digits ((r.den - 1) / r.num)).length

def neighbour? (r : Ratio) (bits : Nat) (e : Int) : Option Decimal :=
  let steps := r.unscale 10 e
  let lower : Decimal := ⟨steps.floor, e⟩
  let upper : Decimal := ⟨steps.floor + 1, e⟩
  match lower.bits == bits, upper.bits == bits with
  | true, true => some (if steps.half = .lt then lower else upper)
  | true, false => some lower
  | false, true => some upper
  | false, false => none

def mostDigits : Nat := 17

/-- The decimal written for `b`: the first neighbour that reads back as `bits`, in order of the
    number of digits.  The exact expansion stands behind it, as the decimal that always reads
    back. -/
def shortest (b : Binary) (bits : Nat) : Decimal :=
  let r := b.ratio
  let grids := (List.range mostDigits).map fun n => r.place - (n + 1 : Nat)
  let exact : Decimal :=
    if 0 ≤ b.exponent then ⟨b.significand * Nat.pow 2 b.exponent.toNat, 0⟩
    else ⟨b.significand * Nat.pow 5 (-b.exponent).toNat, b.exponent⟩
  ((grids.findSome? (neighbour? r bits)).getD exact).trimZeros

end Polish.Number
