import Conditioning.Table
import Mathlib.Algebra.Order.Ring.Defs
import Mathlib.Algebra.Field.Basic
import Mathlib.Algebra.BigOperators.Group.List.Basic

/-!
# Exact numbers

A script is run with doubles.  The same definitions can be read over the numbers
of an ordered field (`Exact`): nothing is rounded, every number is an ordinary
one, and a sum no longer depends on its order (`Exact.val_sum`).

The exponential of such numbers is a parameter, any function of the field.  Where
more is asked of it, it is positive and turns differences into quotients
(`Exponential`), as the exponential of the reals does.
-/

namespace Conditioning

/-- The numbers of a field, with a function of the field as their exponential. -/
@[ext]
structure Exact {K : Type} (exp : K → K) where
  val : K

/-- Positive, and differences become quotients. -/
structure Exponential {K : Type} [Field K] [LinearOrder K] (exp : K → K) : Prop where
  pos : ∀ x, 0 < exp x
  sub_mul : ∀ x y, exp (x - y) * exp y = exp x

namespace Exact

variable {K : Type} [Field K] [LinearOrder K] {exp : K → K}

/-- The greatest member of a list, zero if there is none. -/
def greatest : List K → K
  | [] => 0
  | x :: xs => xs.foldl max x

instance : Scalar (Exact exp) where
  add x y := ⟨x.val + y.val⟩
  sub x y := ⟨x.val - y.val⟩
  mul x y := ⟨x.val * y.val⟩
  div x y := ⟨x.val / y.val⟩
  zero := ⟨0⟩
  one := ⟨1⟩
  exp x := ⟨exp x.val⟩
  lt x y := decide (x.val < y.val)
  isFinite _ := true
  greatest xs := ⟨greatest (xs.map val)⟩

@[simp] theorem val_add (x y : Exact exp) : (x + y).val = x.val + y.val := rfl

@[simp] theorem val_sub (x y : Exact exp) : (x - y).val = x.val - y.val := rfl

@[simp] theorem val_mul (x y : Exact exp) : (x * y).val = x.val * y.val := rfl

@[simp] theorem val_div (x y : Exact exp) : (x / y).val = x.val / y.val := rfl

@[simp] theorem val_zero : (Scalar.zero : Exact exp).val = 0 := rfl

@[simp] theorem val_exp (x : Exact exp) : (Scalar.exp x).val = exp x.val := rfl

theorem val_foldl_add (xs : List (Exact exp)) (x : Exact exp) :
    (xs.foldl (· + ·) x).val = x.val + (xs.map val).sum := by
  induction xs generalizing x with
  | nil => simp
  | cons y ys ih => rw [List.foldl_cons, ih, val_add, List.map_cons, List.sum_cons, add_assoc]

@[simp] theorem val_sum (xs : List (Exact exp)) : (Scalar.sum xs).val = (xs.map val).sum := by
  cases xs with
  | nil => rfl
  | cons x xs => exact val_foldl_add xs x

end Exact

end Conditioning
