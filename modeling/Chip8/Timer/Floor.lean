/-!
# The integer below a double

Clock readings are doubles, and ticks are whole numbers. `Double.floor?` finds the largest
integer that is not above a double, exactly and for any size, from the double's bits: a finite
double is its signed mantissa times a power of two.
-/

namespace Chip8.Double

/-- Two to the power fifty-two: a unit above all bits of the fraction. -/
def fractionUnit : Nat := 0x10000000000000

/-- The eleven bits of the exponent. -/
def exponentBits (x : Float) : Nat := x.toBits.toNat / fractionUnit % 2048

/-- The fifty-two bits of the fraction. -/
def fractionBits (x : Float) : Nat := x.toBits.toNat % fractionUnit

/-- Whether the sign bit is set. -/
def negative (x : Float) : Bool := x.toBits.toNat.testBit 63

/-- Whether a double is neither infinite nor undefined. -/
def finite (x : Float) : Bool := exponentBits x != 2047

/-- The signed mantissa of a finite double, an integer of at most fifty-three bits. -/
def mantissa (x : Float) : Int :=
  let m := if exponentBits x = 0 then fractionBits x else fractionBits x + fractionUnit
  if negative x then -m else m

/-- The power of two that the mantissa of a finite double is multiplied by. -/
def power (x : Float) : Int := max (exponentBits x) 1 - 1075

/-- The largest integer that is not above `m` times two to the power `p`. -/
def floorScaled (m p : Int) : Int :=
  if 0 ≤ p then m * Nat.pow 2 p.toNat else m / Nat.pow 2 (-p).toNat

/-- The largest integer that is not above a finite double. -/
def floor? (x : Float) : Option Int :=
  if finite x then some (floorScaled (mantissa x) (power x)) else none

example : floor? (-0.5) = some (-1) := by decide +kernel

example : floor? 1e16 = some (10 ^ 16) := by decide +kernel

end Chip8.Double
