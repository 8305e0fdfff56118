/-! # Quotients and their rounding to a double

A magnitude that has to be rounded is kept exactly, as a quotient of two natural numbers.

* `Ratio.scale` is `c · base ^ e` for an exponent of either sign.
* `Ratio.nearestEven` rounds to the nearest natural number, a half to the even neighbour.
* `Ratio.nearestBits` rounds to the nearest double: it is the bit pattern of the double, without
  its sign.  Magnitudes that lie beyond the largest finite double give infinity, those too small
  for the least positive one give zero.
-/

namespace Polish.Number

structure Ratio where
  num : Nat
  den : Nat
  deriving DecidableEq, Repr

def binade : Nat := 0x10000000000000

def infinityBits : Nat := 2047 * binade

def leastExponent : Int := -1074

namespace Ratio

def scale (c base : Nat) (e : Int) : Ratio :=
  if 0 ≤ e then ⟨c * base.pow e.toNat, 1⟩ else ⟨c, base.pow (-e).toNat⟩

def unscale (r : Ratio) (base : Nat) (e : Int) : Ratio :=
  if 0 ≤ e then ⟨r.num, r.den * base.pow e.toNat⟩ else ⟨r.num * base.pow (-e).toNat, r.den⟩

def floor (r : Ratio) : Nat :=
  r.num / r.den

/-- Where `r` stands between its floor and the next natural number: below, at or above the
    middle. -/
def half (r : Ratio) : Ordering :=
  compare (2 * (r.num % r.den)) r.den

def nearestEven (r : Ratio) : Nat :=
  match r.half with
  | .lt => r.floor
  | .eq => r.floor + r.floor % 2
  | .gt => r.floor + 1

/-- The exponent of the unit in which `r` is rounded: the quotient of `r` and the unit is below two
    binades, and at least one unless the unit is that of the least positive double.  The two
    logarithms locate the exponent up to one. -/
def unitExponent (r : Ratio) : Int :=
  let e := max leastExponent (r.num.log2 - r.den.log2 - 53)
  if (r.unscale 2 e).floor < 2 * binade then e else e + 1

/-- The bit pattern of the nonnegative double nearest to `r`.  The significand may round up to two
    binades: it then carries into the exponent field, which is what the next double needs. -/
def nearestBits (r : Ratio) : Nat :=
  if r.num = 0 then 0
  else
    let e := r.unitExponent
    min infinityBits ((e - leastExponent).toNat * binade + (r.unscale 2 e).nearestEven)

end Ratio

end Polish.Number
