import Conditioning.Scalar
import Conditioning.Random.Generator

/-!
# Choosing at random

A choice turns one number `r` of `[0, 1)` into an index.  A table of running
totals is entered at its first total above `r`; totals that end below one leave
the rest of the mass to no index at all.  A list of weights is entered at the
first place where the running sum passes `r` times the whole sum.  Rounding can
leave that place beyond the end, and then the last positive weight is taken.
-/

namespace Conditioning

namespace Choice

variable {α : Type} [Scalar α]

/-- The index of the first running total above `r`. -/
def below (totals : List α) (r : α) : Option Nat :=
  totals.findIdx? fun total => Scalar.lt r total

/-- The first index at which the running sum, begun at `acc`, passes `q`. -/
def passing (q acc : α) : List α → Option Nat
  | [] => none
  | w :: ws =>
    if Scalar.lt q (acc + w) then some 0 else (passing q (acc + w) ws).map (· + 1)

/-- The last index that holds a positive weight, zero if there is none. -/
def lastPositive : List α → Nat
  | [] => 0
  | _ :: ws =>
    if ws.any (Scalar.lt Scalar.zero) then lastPositive ws + 1 else 0

/-- The index that `r` chooses in proportion to the weights. -/
def weighted (weights : List α) (r : α) : Nat :=
  (passing (r * Scalar.sum weights) Scalar.zero weights).getD (lastPositive weights)

theorem passing_lt {q acc : α} {ws : List α} {i : Nat} (h : passing q acc ws = some i) :
    i < ws.length := by
  induction ws generalizing acc i with
  | nil => simp [passing] at h
  | cons w ws ih =>
    simp only [passing] at h
    split at h
    · simp only [Option.some.injEq] at h
      subst h
      simp
    · obtain ⟨j, hj, rfl⟩ := Option.map_eq_some_iff.1 h
      have := ih hj
      simp only [List.length_cons]
      omega

end Choice

namespace Generator

/-- Draw an index from a table of running totals. -/
def chooseBelow (g : Generator) (totals : List Float) : Option Nat × Generator :=
  (Choice.below totals g.unit.1, g.unit.2)

/-- Draw an index in proportion to weights. -/
def chooseWeighted (g : Generator) (weights : List Float) : Nat × Generator :=
  (Choice.weighted weights g.unit.1, g.unit.2)

end Generator

end Conditioning
