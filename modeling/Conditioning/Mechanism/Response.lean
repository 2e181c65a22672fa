import Conditioning.Scalar
import Conditioning.Vocabulary

/-!
# Responses

A behavior is possible in answer to a stimulus if it is possible for one of the
elements shown.  The possible behaviors come in the order in which the elements
bring them in.  Each has a score, the exponential of `beta` times the sum of
its weights with the elements shown; the scores are all divided by the greatest
one, which changes no proportion and keeps their sum finite.  The probability
of a behavior is its share of the scores.
-/

namespace Conditioning

/-- What turns weights into probabilities of behaviors. -/
structure ResponseModel (α : Type) where
  beta : α
  /-- The possible behaviors of each element. -/
  feasible : Array (List BehaviorId)

/-- The members of a list, each at its first place. -/
def firstOccurrences : List Nat → List Nat
  | [] => []
  | x :: xs => x :: (firstOccurrences xs).filter (· != x)

theorem mem_firstOccurrences {x : Nat} {xs : List Nat} :
    x ∈ firstOccurrences xs ↔ x ∈ xs := by
  induction xs with
  | nil => simp [firstOccurrences]
  | cons y ys ih =>
    by_cases h : x = y
    · simp [firstOccurrences, h]
    · simp [firstOccurrences, h, ih]

theorem nodup_firstOccurrences (xs : List Nat) : (firstOccurrences xs).Nodup := by
  induction xs with
  | nil => simp [firstOccurrences]
  | cons x xs ih =>
    refine List.nodup_cons.2 ⟨?_, List.Nodup.sublist List.filter_sublist ih⟩
    simp

namespace ResponseModel

variable {α : Type}

/-- The possible behaviors of an element. -/
def feasibleFor (model : ResponseModel α) (element : ElementId) : List BehaviorId :=
  model.feasible.getD element []

/-- The possible behaviors of a stimulus. -/
def feasibleBehaviors (model : ResponseModel α) (elements : List ElementId) : List BehaviorId :=
  firstOccurrences (elements.flatMap model.feasibleFor)

variable [Scalar α]

/-- The exponent of a behavior's score. -/
def exponent (model : ResponseModel α) (elements : List ElementId)
    (v : ElementId → BehaviorId → α) (behavior : BehaviorId) : α :=
  model.beta * Scalar.sum (elements.map fun element => v element behavior)

/-- The greatest exponent that is a number, zero if there is none. -/
def shift (exponents : List α) : α :=
  match exponents.filter Scalar.isFinite with
  | [] => Scalar.zero
  | finite => Scalar.greatest finite

/-- The possible behaviors with their scores. -/
def scores (model : ResponseModel α) (elements : List ElementId)
    (v : ElementId → BehaviorId → α) : List (BehaviorId × α) :=
  let behaviors := model.feasibleBehaviors elements
  let top := shift (behaviors.map (model.exponent elements v))
  behaviors.map fun behavior => (behavior, Scalar.exp (model.exponent elements v behavior - top))

/-- The sum of all scores. -/
def totalScore (scores : List (BehaviorId × α)) : α :=
  Scalar.sum (scores.map Prod.snd)

/-- The probability of a behavior, zero if it is not possible. -/
def probability (model : ResponseModel α) (elements : List ElementId) (behavior : BehaviorId)
    (v : ElementId → BehaviorId → α) : α :=
  let scores := model.scores elements v
  match scores.find? fun score => score.1 == behavior with
  | some score => score.2 / totalScore scores
  | none => Scalar.zero

theorem map_fst_scores (model : ResponseModel α) (elements : List ElementId)
    (v : ElementId → BehaviorId → α) :
    (model.scores elements v).map Prod.fst = model.feasibleBehaviors elements := by
  simp [scores, Function.comp_def]

end ResponseModel

end Conditioning
