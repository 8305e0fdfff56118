import Polish.Number.Ratio

/-! # Doubles taken apart

A finite double is a sign, a natural significand and an exponent of two.  `Binary.ofFloat?` takes
a double apart, `ofMagnitude` puts one together from a sign and the bit pattern of a magnitude.
-/

namespace Polish.Number

structure Binary where
  negative : Bool
  significand : Nat
  exponent : Int
  deriving DecidableEq, Repr

def signBit : Nat := 2048 * binade

def magnitudeBits (v : Float) : Nat :=
  v.toBits.toNat % signBit

def isNegative (v : Float) : Bool :=
  signBit ≤ v.toBits.toNat

def ofMagnitude (negative : Bool) (bits : Nat) : Float :=
  Float.ofBits (UInt64.ofNat (if negative then signBit + bits else bits))

def notANumber : Float := Float.ofBits 0x7FF8000000000000

def isNaN (v : Float) : Bool :=
  infinityBits < magnitudeBits v

/-- The parts of a finite double; infinities and NaN have none. -/
def Binary.ofFloat? (v : Float) : Option Binary :=
  let bits := magnitudeBits v
  let field := bits / binade
  let fraction := bits % binade
  if field = 2047 then none
  -- the numbers below the first binade have no leading bit that is left out
  else if field = 0 then some ⟨isNegative v, fraction, leastExponent⟩
  else some ⟨isNegative v, binade + fraction, leastExponent + (field - 1 : Nat)⟩

def Binary.ratio (b : Binary) : Ratio :=
  Ratio.scale b.significand 2 b.exponent

end Polish.Number
