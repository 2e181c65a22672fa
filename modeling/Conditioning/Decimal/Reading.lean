import Conditioning.Decimal.Numeral

/-!
# Reading doubles

A decimal number is an optional sign, digits with at most one point among or
beside them, and optionally `e` or `E`, a sign and digits.  There is at least
one digit before the power of ten, and at least one in it.  The number is
rounded to the nearest double; what is too great becomes an infinity and what
is too small becomes zero.
-/

namespace Conditioning.Decimal

/-- A sign in front of a text, and the rest of it. -/
def takeSign : List Char → Bool × List Char
  | '+' :: cs => (false, cs)
  | '-' :: cs => (true, cs)
  | cs => (false, cs)

/-- The digits in front of a text. -/
def takeDigits (cs : List Char) : List Char × List Char :=
  (cs.takeWhile isDigit, cs.dropWhile isDigit)

/-- The power of ten that ends a number. -/
def readPower? : List Char → Option Int
  | [] => some 0
  | c :: cs =>
    if c = 'e' ∨ c = 'E' then
      let signed := takeSign cs
      match takeDigits signed.2 with
      | ([], _) => none
      | (ds, []) => some (if signed.1 then -(value ds : Int) else value ds)
      | (_, _) => none
    else none

/-- The digits after a decimal point, if there is one. -/
def takeFraction : List Char → List Char × List Char
  | '.' :: cs => takeDigits cs
  | cs => ([], cs)

/-- Sizes beyond these are infinite or zero whatever their digits are. -/
def sizeLimit : Int := 400

/-- The double nearest to `m * 10 ^ e`. -/
def nearestDouble (m : Nat) (e : Int) : Float :=
  let size := e + (digits m).length
  if m = 0 ∨ size < -sizeLimit then 0.0
  else if sizeLimit < size then 1.0 / 0.0
  else Float.ofScientific m (e < 0) e.natAbs

/-- The double that a whole text stands for. -/
def readDouble? (text : List Char) : Option Float :=
  let signed := takeSign text
  let whole := takeDigits signed.2
  let fraction := takeFraction whole.2
  match whole.1 ++ fraction.1, readPower? fraction.2 with
  | [], _ => none
  | _, none => none
  | ds, some e =>
    let x := nearestDouble (value ds) (e - fraction.1.length)
    some (if signed.1 then -x else x)

/-- The integer that a whole text of a sign and digits stands for. -/
def readInteger? (text : List Char) : Option Int :=
  let signed := takeSign text
  match takeDigits signed.2 with
  | ([], _) => none
  | (ds, []) => some (if signed.1 then -(value ds : Int) else value ds)
  | (_, _) => none

/-- The natural number below `bound` that a whole text stands for; a plus may stand in front. -/
def readBelow? (bound : Nat) (text : List Char) : Option Nat :=
  match text with
  | '-' :: _ => none
  | _ =>
    match readInteger? text with
    | some n => if n.toNat < bound then some n.toNat else none
    | none => none

end Conditioning.Decimal
