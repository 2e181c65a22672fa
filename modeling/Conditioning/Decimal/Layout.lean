import Conditioning.Decimal.Numeral
import Conditioning.Decimal.Shortest

/-!
# Writing doubles

A style says how the digits of a double are laid out: which way ties go, for
which sizes a decimal point is placed among the digits, and whether a whole
number shows a fraction of one zero.  The size of a number is the power of ten
of its leading digit.
-/

namespace Conditioning.Decimal

/-- How doubles are written. -/
structure Style where
  /-- Which of two equally short and near decimals is written. -/
  tie : Tie
  /-- The sizes written with a decimal point; all of them if unset. -/
  pointed : Option (Int × Int)
  /-- Whether whole numbers end in `.0`. -/
  wholeMark : Bool

/-- The digits before and after the decimal point. -/
def around (d : Scaled) : List Char × List Char :=
  let ds := digits d.digits
  if 0 ≤ d.exponent then (ds ++ List.replicate d.exponent.toNat '0', [])
  else
    let places := (-d.exponent).toNat
    if places < ds.length then (ds.take (ds.length - places), ds.drop (ds.length - places))
    else (['0'], List.replicate (places - ds.length) '0' ++ ds)

/-- The number with a decimal point among its digits. -/
def pointedText (wholeMark : Bool) (d : Scaled) : List Char :=
  match around d with
  | (front, []) => if wholeMark then front ++ ['.', '0'] else front
  | (front, back) => front ++ '.' :: back

/-- The number with a point after its leading digit and a power of ten, whose sign is always
written. -/
def exponentText (d : Scaled) : List Char :=
  let ds := digits d.digits
  let size := d.exponent + (ds.length - 1 : Nat)
  let power := (if size < 0 then '-' else '+') :: digits size.natAbs
  match ds with
  | [] => 'e' :: power
  | [c] => c :: 'e' :: power
  | c :: cs => c :: '.' :: cs ++ 'e' :: power

/-- The text of a decimal number that is not negative. -/
def Style.scaledText (style : Style) (d : Scaled) : List Char :=
  let size := d.exponent + ((digits d.digits).length - 1 : Nat)
  let inRange := match style.pointed with
    | none => true
    | some (least, greatest) => least ≤ size && size ≤ greatest
  if inRange then pointedText style.wholeMark d else exponentText d

/-- The text of a double; none for infinities and what is not a number. -/
def Style.text? (style : Style) (x : Float) : Option String :=
  match parts x with
  | .finite negative m q =>
    let body := style.scaledText (shortest style.tie m q)
    some (String.ofList (if negative then '-' :: body else body))
  | _ => none

/-- Positional digits, as in messages: never a power of ten, no mark on whole numbers. -/
def plain : Style := ⟨.up, none, false⟩

/-- The text of any double in positional digits. -/
def plainText (x : Float) : String :=
  match parts x with
  | .nan => "NaN"
  | .infinite negative => if negative then "-inf" else "inf"
  | .finite .. => (plain.text? x).getD ""

/-- The text of any double in positional digits, whole numbers with every digit and `.0`. -/
def markedText (x : Float) : String :=
  match parts x with
  | .finite negative m q =>
    if isWhole m q then
      let body := digits (wholePart m q) ++ ['.', '0']
      String.ofList (if negative then '-' :: body else body)
    else plainText x
  | _ => plainText x

end Conditioning.Decimal
