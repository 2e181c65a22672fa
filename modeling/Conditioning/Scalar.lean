/-!
# Scalars

Weights, learning rates, scores and probabilities are scalars.  The learning
rules and the response model use nothing of a scalar but the operations named
here, so the same definitions run on doubles and can be read over exact
numbers.  Doubles are rounded at every operation and addition does not
associate, so the order of a sum is part of its meaning: sums run from left to
right and start with their first summand.
-/

namespace Conditioning

/-- The operations that learning and responding use. -/
class Scalar (α : Type) extends Add α, Sub α, Mul α, Div α where
  zero : α
  /-- The default of rates and of `beta`. -/
  one : α
  exp : α → α
  /-- Strict order; false whenever a side is not comparable. -/
  lt : α → α → Bool
  /-- Whether the value is an ordinary number. -/
  isFinite : α → Bool
  /-- The greatest member of a list, members that compare with nothing left out. -/
  greatest : List α → α

namespace Scalar

variable {α : Type} [Scalar α]

/-- The sum of a list, from left to right. -/
def sum : List α → α
  | [] => zero
  | x :: xs => xs.foldl (· + ·) x

@[simp] theorem sum_nil : sum ([] : List α) = zero := rfl

@[simp] theorem sum_singleton (x : α) : sum [x] = x := rfl

theorem sum_append_singleton (x : α) (xs : List α) (y : α) :
    sum ((x :: xs) ++ [y]) = sum (x :: xs) + y := by
  simp [sum]

end Scalar

/-- The greatest double of a list; minus infinity if there is none to compare. -/
def greatestDouble (xs : List Float) : Float :=
  xs.foldl (fun best x => if best < x then x else best) (-1.0 / 0.0)

instance : Scalar Float where
  zero := 0.0
  one := 1.0
  exp := Float.exp
  lt x y := decide (x < y)
  isFinite := Float.isFinite
  greatest := greatestDouble

end Conditioning
