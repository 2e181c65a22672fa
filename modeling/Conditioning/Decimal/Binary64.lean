/-!
# The parts of a double

A finite double is a sign, a whole significand below 2^53 and a power of two.
The significand of a normal double has its full 53 bits; below the least normal
exponent the significand is shorter and the power of two stays the same.
-/

namespace Conditioning.Decimal

/-- What the bits of a double say. -/
inductive Parts where
  | nan
  | infinite (negative : Bool)
  /-- The number `significand * 2 ^ exponent`, or its opposite. -/
  | finite (negative : Bool) (significand : Nat) (exponent : Int)
deriving DecidableEq, Repr

/-- The power of two of the doubles below the least normal one. -/
def leastExponent : Int := -1074

/-- The leading bit of a normal significand, 2^52. -/
def leadingBit : Nat := 4503599627370496

/-- The parts of a double. -/
def parts (x : Float) : Parts :=
  let bits := x.toBits.toNat
  let negative := 9223372036854775808 ≤ bits
  let biased := bits / leadingBit % 2048
  let fraction := bits % leadingBit
  if biased = 2047 then
    if fraction = 0 then .infinite negative else .nan
  else if biased = 0 then .finite negative fraction leastExponent
  else .finite negative (leadingBit + fraction) (leastExponent + (biased - 1 : Nat))

/-- Whether `significand * 2 ^ exponent` is a whole number. -/
def isWhole (significand : Nat) (exponent : Int) : Bool :=
  significand % Nat.pow 2 (-exponent).toNat == 0

/-- The whole part of `significand * 2 ^ exponent`. -/
def wholePart (significand : Nat) (exponent : Int) : Nat :=
  significand * Nat.pow 2 exponent.toNat / Nat.pow 2 (-exponent).toNat

end Conditioning.Decimal
