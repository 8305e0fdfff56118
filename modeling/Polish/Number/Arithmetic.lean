import Polish.Number.Binary

/-! # Arithmetic beyond the basic operations

The operations on doubles that are not primitive: the remainder of a truncated division, the
lesser and the greater of two numbers, and the two constants.
-/

namespace Polish.Number

/-- What is left of the magnitude of `x` after the magnitude of `y` is taken from it as often as
    it fits.  Both are whole multiples of the unit with the lesser exponent, and so is the
    remainder, which is why it is a double itself. -/
def Binary.remainder (x y : Binary) : Ratio :=
  let unit := min x.exponent y.exponent
  let steps (b : Binary) : Nat := b.significand * Nat.pow 2 (b.exponent - unit).toNat
  Ratio.scale (steps x % steps y) 2 unit

/-- The remainder of `x` divided by `y`, with the sign of `x`.  There is none for an infinite
    dividend or a divisor of zero; an infinite divisor leaves `x` as it is. -/
def remainder (x y : Float) : Float :=
  if isNaN x || isNaN y then notANumber
  else match Binary.ofFloat? x, Binary.ofFloat? y with
    | none, _ => notANumber
    | some _, none => x
    | some a, some b =>
      if b.significand = 0 then notANumber
      else ofMagnitude a.negative (a.remainder b).nearestBits

/-- The lesser of two numbers.  NaN counts as missing: the other number is the answer. -/
def lesser (x y : Float) : Float :=
  if isNaN x then y else if isNaN y then x else if y < x then y else x

def greater (x y : Float) : Float :=
  if isNaN x then y else if isNaN y then x else if x < y then y else x

def circleConstant : Float := Float.ofBits 0x400921FB54442D18

def eulerNumber : Float := Float.ofBits 0x4005BF0A8B145769

end Polish.Number
