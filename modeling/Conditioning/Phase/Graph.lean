import Conditioning.Random.Choice
import Conditioning.Vocabulary

/-!
# Phase graphs

A phase is a graph of lines.  A line shows a stimulus, and its conditions say
which line follows, given the response to the stimulus.  A condition has a
guard and edges with probabilities.  Probabilities that are one together, up to
rounding, leave no gap: their last running total is one.

A phase ends when a line, an element or a behavior has occurred often enough.
-/

namespace Conditioning

/-- When a condition applies. -/
structure Guard where
  /-- The response that is asked for, if one is. -/
  response : Option BehaviorId
  /-- How often in succession, if that is asked for. -/
  count : Option Nat
deriving DecidableEq, Repr

/-- A way to a line. -/
structure Edge where
  probability : Float
  target : Nat

/-- A guard and the ways that are open if it holds. -/
structure Condition where
  guard : Guard
  edges : List Edge

/-- A line of a phase. -/
structure Line where
  label : String
  stimulus : Stimulus
  conditions : List Condition

/-- What an end condition counts. -/
inductive EndKey where
  | line (line : Nat)
  | element (element : ElementId)
  | behavior (behavior : BehaviorId)
deriving DecidableEq, Repr

/-- When a phase ends. -/
structure EndCondition where
  key : EndKey
  /-- The count that ends the phase. -/
  threshold : Nat
deriving DecidableEq, Repr

/-- A phase. -/
structure Phase where
  label : String
  vocabulary : Vocabulary
  /-- The lines in order; the first one is shown first. -/
  lines : List Line
  ending : EndCondition

/-- A guard that always holds. -/
def Guard.isOpen (guard : Guard) : Bool := guard.response.isNone && guard.count.isNone

/-! ## Running totals -/

/-- How far probabilities may miss one by rounding. -/
def roundingSlack : Float := 1e-9

/-- The running totals of probabilities, begun at `acc`. -/
def runningTotals (acc : Float) : List Float → List Float
  | [] => []
  | p :: ps => (acc + p) :: runningTotals (acc + p) ps

/-- Replace a last total that falls short of one by rounding only. -/
def closeTotals : List Float → List Float
  | [] => []
  | [total] => if 1.0 - roundingSlack ≤ total then [1.0] else [total]
  | total :: totals => total :: closeTotals totals

namespace Condition

/-- The probabilities of the edges. -/
def probabilities (condition : Condition) : List Float := condition.edges.map Edge.probability

/-- The sum of the probabilities. -/
def rawMass (condition : Condition) : Float :=
  (runningTotals 0.0 condition.probabilities).getLast?.getD 0.0

/-- The running totals that a draw is compared with. -/
def totals (condition : Condition) : List Float :=
  closeTotals (runningTotals 0.0 condition.probabilities)

/-- The probability that some edge is taken. -/
def mass (condition : Condition) : Float := condition.totals.getLast?.getD 0.0

end Condition

@[simp] theorem length_runningTotals (acc : Float) (ps : List Float) :
    (runningTotals acc ps).length = ps.length := by
  induction ps generalizing acc with
  | nil => rfl
  | cons p ps ih => simp [runningTotals, ih]

@[simp] theorem length_closeTotals (totals : List Float) :
    (closeTotals totals).length = totals.length := by
  fun_induction closeTotals totals with
  | case1 => rfl
  | case2 => rfl
  | case3 => rfl
  | case4 _ _ _ ih => simp [ih]

theorem Condition.length_totals (condition : Condition) :
    condition.totals.length = condition.edges.length := by
  simp [totals, probabilities]

end Conditioning
