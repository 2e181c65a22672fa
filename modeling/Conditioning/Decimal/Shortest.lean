import Conditioning.Decimal.Binary64

/-!
# The fewest digits that read back

Every real number nearer to a double than to its neighbours is read as that
double, and so are the two midpoints if the significand is even.  The shortest
decimal of a double is found on grids of powers of ten, from a grid too coarse
to finer ones: on each, only the two points around the double can be inside the
interval.  The first grid with a point inside wins, and of two points inside
the nearer one.  Which point wins an exact tie is left to the writer.

All comparisons are between natural numbers.  The interval is measured in
quarters of the last bit, because below a power of two the neighbour is only
half as far away.
-/

namespace Conditioning.Decimal

/-- Which of two equally near points is taken. -/
inductive Tie where
  | up
  /-- The one with the even last digit. -/
  | even
deriving DecidableEq, Repr

/-- The decimal number `digits * 10 ^ exponent`. -/
structure Scaled where
  /-- All the digits, as one number. -/
  digits : Nat
  /-- The power of ten of the last digit. -/
  exponent : Int
deriving DecidableEq, Repr

/-- Natural numbers whose ratio is `2 ^ q / 10 ^ p`. -/
def stepRatio (q p : Int) : Nat × Nat :=
  (Nat.pow 2 q.toNat * Nat.pow 10 (-p).toNat, Nat.pow 2 (-q).toNat * Nat.pow 10 p.toNat)

/-- The lower end of the interval, in quarters of the last bit. -/
def lowerQuarters (m : Nat) (q : Int) : Nat :=
  if m = leadingBit ∧ leastExponent < q then 4 * m - 1 else 4 * m - 2

/-- The upper end of the interval, in quarters of the last bit. -/
def upperQuarters (m : Nat) : Nat :=
  4 * m + 2

/-- Whether the grid point `d * 10 ^ p` reads back as `m * 2 ^ q`. -/
def readsBack (m : Nat) (q p : Int) (d : Nat) : Bool :=
  let ratio := stepRatio (q - 2) p
  let low := lowerQuarters m q * ratio.1
  let point := d * ratio.2
  let high := upperQuarters m * ratio.1
  if m % 2 = 0 then low ≤ point && point ≤ high else low < point && point < high

/-- The grid point at or below `m * 2 ^ q`. -/
def gridFloor (m : Nat) (q p : Int) : Nat :=
  let ratio := stepRatio (q - 2) p
  4 * m * ratio.1 / ratio.2

/-- The nearer of the two grid points around `m * 2 ^ q`. -/
def nearer (tie : Tie) (m : Nat) (q p : Int) : Nat :=
  let ratio := stepRatio (q - 2) p
  let d := gridFloor m q p
  let twice := 8 * m * ratio.1
  let middle := (2 * d + 1) * ratio.2
  if twice < middle then d
  else if middle < twice then d + 1
  else match tie with
    | .up => d + 1
    | .even => if d % 2 = 0 then d else d + 1

/-- The point of the grid that reads back, if there is one. -/
def onGrid (tie : Tie) (m : Nat) (q p : Int) : Option Nat :=
  let d := gridFloor m q p
  match readsBack m q p d, readsBack m q p (d + 1) with
  | true, true => some (nearer tie m q p)
  | true, false => some d
  | false, true => some (d + 1)
  | false, false => none

/-- Try grids from `10 ^ p` downwards. -/
def searchGrids (tie : Tie) (m : Nat) (q : Int) : Nat → Int → Scaled
  | 0, p => ⟨gridFloor m q p, p⟩
  | more + 1, p =>
    match onGrid tie m q p with
    | some d => ⟨d, p⟩
    | none => searchGrids tie m q more (p - 1)

/-- A power of ten above `m * 2 ^ q`; 30103 / 100000 is a little more than the logarithm of two. -/
def powerAbove (m : Nat) (q : Int) : Int :=
  Int.fdiv ((m.log2 + 1 + q) * 30103) 100000 + 2

/-- The shortest decimal of `m * 2 ^ q`.  Seventeen digits always suffice. -/
def shortest (tie : Tie) (m : Nat) (q : Int) : Scaled :=
  if m = 0 then ⟨0, 0⟩ else searchGrids tie m q 21 (powerAbove m q)

end Conditioning.Decimal
