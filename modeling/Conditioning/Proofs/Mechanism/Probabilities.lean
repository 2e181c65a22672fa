import Conditioning.Proofs.Mechanism.Update
import Conditioning.Proofs.Scalar.Exact
import Mathlib.Algebra.BigOperators.Field
import Mathlib.Algebra.BigOperators.Ring.List
import Mathlib.Algebra.Order.BigOperators.Group.Finset
import Mathlib.Algebra.Order.Field.Basic
import Mathlib.Analysis.Complex.Exponential

/-!
# Probabilities without the shift

The scores of the possible behaviors are divided by the greatest one, so that their
sum stays finite.  In exact numbers nothing needs to stay finite, and the probabilities
can be told without the shift: each possible behavior has a strength, the exponential of
`beta` times the sum of its weights (`ResponseModel.strength`), and its probability is its
share of the strengths of all possible behaviors (`ResponseModel.probability_eq_share`).
A behavior that several elements make possible is counted once
(`ResponseModel.possibleBehaviors`).

What the shift is does not matter: a score times the exponential of the shift is a
strength (`ResponseModel.val_scoreOf_mul`), so the shift cancels in every share.
-/

namespace Conditioning

namespace ResponseModel

/-- The behaviors that are possible for one of the elements, as a set. -/
def possibleBehaviors {α : Type} (model : ResponseModel α) (elements : List ElementId) :
    Finset BehaviorId :=
  (elements.flatMap model.feasibleFor).toFinset

theorem possibleBehaviors_eq {α : Type} (model : ResponseModel α) (elements : List ElementId) :
    model.possibleBehaviors elements = (model.feasibleBehaviors elements).toFinset := by
  ext behavior
  rw [possibleBehaviors, List.mem_toFinset, List.mem_toFinset, feasibleBehaviors,
    mem_firstOccurrences]

theorem mem_possibleBehaviors {α : Type} {model : ResponseModel α} {elements : List ElementId}
    {behavior : BehaviorId} :
    behavior ∈ model.possibleBehaviors elements ↔ behavior ∈ model.feasibleBehaviors elements := by
  rw [possibleBehaviors_eq, List.mem_toFinset]

theorem possibleBehaviors_perm {α : Type} (model : ResponseModel α)
    {elements elements' : List ElementId} (h : elements.Perm elements') :
    model.possibleBehaviors elements = model.possibleBehaviors elements' :=
  List.toFinset_eq_of_perm _ _ (h.flatMap_right _)

variable {K : Type} [Field K] [LinearOrder K] {exp : K → K}

/-- The exponential of `beta` times the sum of a behavior's weights with the elements. -/
def strength (model : ResponseModel (Exact exp)) (elements : List ElementId)
    (v : ElementId → BehaviorId → Exact exp) (behavior : BehaviorId) : K :=
  exp (model.beta.val * (elements.map fun element => (v element behavior).val).sum)

variable (model : ResponseModel (Exact exp)) (elements : List ElementId)
  (v : ElementId → BehaviorId → Exact exp)

/-- The score of a behavior, given a shift. -/
def scoreOf (top : Exact exp) (behavior : BehaviorId) : Exact exp :=
  Scalar.exp (model.exponent elements v behavior - top)

theorem exists_scores_eq : ∃ top, model.scores elements v =
    (model.feasibleBehaviors elements).map fun behavior =>
      (behavior, model.scoreOf elements v top behavior) :=
  ⟨_, rfl⟩

/-- The shift is taken back by its exponential. -/
theorem val_scoreOf_mul (hexp : Exponential exp) (top : Exact exp) (behavior : BehaviorId) :
    (model.scoreOf elements v top behavior).val * exp top.val =
      model.strength elements v behavior := by
  have hexponent : (model.exponent elements v behavior).val =
      model.beta.val * (elements.map fun element => (v element behavior).val).sum := by
    simp [exponent, Function.comp_def]
  rw [scoreOf, Exact.val_exp, Exact.val_sub, hexp.sub_mul, hexponent, strength]

/-- So it is in the sum of all scores. -/
theorem val_totalScore_mul (hexp : Exponential exp) (top : Exact exp) :
    (totalScore ((model.feasibleBehaviors elements).map fun behavior =>
        (behavior, model.scoreOf elements v top behavior))).val * exp top.val =
      ∑ behavior ∈ model.possibleBehaviors elements, model.strength elements v behavior := by
  have hscores : ((model.feasibleBehaviors elements).map fun behavior =>
      (model.scoreOf elements v top behavior).val * exp top.val) =
      (model.feasibleBehaviors elements).map (model.strength elements v) :=
    List.map_congr_left fun behavior _ => model.val_scoreOf_mul elements v hexp top behavior
  have hnodup : (model.feasibleBehaviors elements).Nodup := nodup_firstOccurrences _
  rw [totalScore, Exact.val_sum, List.map_map, List.map_map, possibleBehaviors_eq,
    List.sum_toFinset _ hnodup, ← hscores, List.sum_map_mul_right]
  rfl

/-- The share of a behavior in the strengths of all possible behaviors, nothing if it is not
possible. -/
def share (behavior : BehaviorId) : K :=
  if behavior ∈ model.possibleBehaviors elements then
    model.strength elements v behavior /
      ∑ other ∈ model.possibleBehaviors elements, model.strength elements v other
  else 0

theorem val_probability (hexp : Exponential exp) (behavior : BehaviorId) :
    (model.probability elements behavior v).val = model.share elements v behavior := by
  obtain ⟨top, hscores⟩ := model.exists_scores_eq elements v
  rw [share]
  split
  next hbehavior =>
    rw [mem_possibleBehaviors] at hbehavior
    have hmem : (behavior, model.scoreOf elements v top behavior) ∈ model.scores elements v := by
      rw [hscores]
      exact List.mem_map_of_mem hbehavior
    rw [probability_of_mem_scores hmem, hscores, Exact.val_div,
      ← model.val_totalScore_mul elements v hexp top, ← model.val_scoreOf_mul elements v hexp top,
      mul_div_mul_right _ _ (hexp.pos _).ne']
  next hbehavior =>
    rw [mem_possibleBehaviors] at hbehavior
    have hnone : (model.scores elements v).find? (fun score => score.1 == behavior) = none := by
      rw [List.find?_eq_none]
      intro score hscore heq
      refine hbehavior ?_
      rw [← model.map_fst_scores elements v, ← beq_iff_eq.1 heq]
      exact List.mem_map_of_mem hscore
    rw [probability, hnone]
    rfl

omit [LinearOrder K] in
theorem share_perm {elements elements' : List ElementId} (h : elements.Perm elements')
    (behavior : BehaviorId) :
    model.share elements v behavior = model.share elements' v behavior := by
  have hstrength (behavior : BehaviorId) :
      model.strength elements v behavior = model.strength elements' v behavior := by
    rw [strength, strength, (h.map _).sum_eq]
  simp only [share, hstrength, model.possibleBehaviors_perm h]

section

variable [IsStrictOrderedRing K]

theorem sum_strength_pos (hexp : Exponential exp)
    (hpossible : (model.possibleBehaviors elements).Nonempty) :
    0 < ∑ behavior ∈ model.possibleBehaviors elements, model.strength elements v behavior :=
  Finset.sum_pos (fun _ _ => hexp.pos _) hpossible

theorem share_pos_iff (hexp : Exponential exp) {behavior : BehaviorId} :
    0 < model.share elements v behavior ↔ behavior ∈ model.possibleBehaviors elements := by
  rw [share]
  split
  next hbehavior =>
    exact iff_of_true
      (div_pos (hexp.pos _) (model.sum_strength_pos elements v hexp ⟨behavior, hbehavior⟩)) hbehavior
  next hbehavior => exact iff_of_false (lt_irrefl 0) hbehavior

/-- The shares of all behaviors are one, if there is one at all. -/
theorem sum_share (hexp : Exponential exp)
    (hpossible : (model.possibleBehaviors elements).Nonempty) {behaviors : Finset BehaviorId}
    (hbehaviors : model.possibleBehaviors elements ⊆ behaviors) :
    ∑ behavior ∈ behaviors, model.share elements v behavior = 1 := by
  have hpos := model.sum_strength_pos elements v hexp hpossible
  calc ∑ behavior ∈ behaviors, model.share elements v behavior
    _ = ∑ behavior ∈ model.possibleBehaviors elements, model.share elements v behavior :=
        (Finset.sum_subset hbehaviors fun _ _ hbehavior => if_neg hbehavior).symm
    _ = ∑ behavior ∈ model.possibleBehaviors elements, model.strength elements v behavior /
          ∑ other ∈ model.possibleBehaviors elements, model.strength elements v other :=
        Finset.sum_congr rfl fun _ hbehavior => if_pos hbehavior
    _ = 1 := by rw [← Finset.sum_div, div_self hpos.ne']

/-- The probability of a behavior is its share of the strengths of all possible behaviors, whatever
order the elements are shown in. -/
theorem probability_eq_share (hexp : Exponential exp) {elements : List ElementId}
    (hne : elements ≠ []) (hfeasible : ∀ element ∈ elements, model.feasibleFor element ≠ []) :
    (∀ behavior, (model.probability elements behavior v).val =
      if behavior ∈ model.possibleBehaviors elements then
        model.strength elements v behavior /
          ∑ other ∈ model.possibleBehaviors elements, model.strength elements v other
      else 0) ∧
    (∀ behavior, 0 < (model.probability elements behavior v).val ↔
      behavior ∈ model.possibleBehaviors elements) ∧
    (∀ behaviors, model.possibleBehaviors elements ⊆ behaviors →
      ∑ behavior ∈ behaviors, (model.probability elements behavior v).val = 1) ∧
    ∀ elements', elements.Perm elements' → ∀ behavior,
      model.probability elements' behavior v = model.probability elements behavior v := by
  have hpossible : (model.possibleBehaviors elements).Nonempty := by
    obtain ⟨element, helement⟩ := List.exists_mem_of_ne_nil _ hne
    obtain ⟨behavior, hbehavior⟩ := List.exists_mem_of_ne_nil _ (hfeasible element helement)
    exact ⟨behavior, List.mem_toFinset.2 (List.mem_flatMap.2 ⟨element, helement, hbehavior⟩)⟩
  simp only [model.val_probability _ v hexp, Exact.ext_iff]
  refine ⟨fun behavior => rfl, fun behavior => model.share_pos_iff elements v hexp,
    fun behaviors => model.sum_share elements v hexp hpossible, fun elements' hperm behavior => ?_⟩
  exact (model.share_perm v hperm behavior).symm

/-- Two elements that both make the second behavior possible, and the first element one more. -/
theorem probability_eq_share_reals :
    let model : ResponseModel (Exact Real.exp) := ⟨⟨2⟩, #[[1, 0], [1]]⟩
    let v (element : ElementId) (behavior : BehaviorId) : Exact Real.exp := ⟨element + behavior⟩
    (model.probability [0, 1] 0 v).val = Real.exp 2 / (Real.exp 6 + Real.exp 2) ∧
      0 < (model.probability [0, 1] 1 v).val ∧ (model.probability [0, 1] 2 v).val = 0 ∧
      ∑ behavior ∈ {0, 1, 2}, (model.probability [0, 1] behavior v).val = 1 ∧
      model.probability [1, 0] 0 v = model.probability [0, 1] 0 v := by
  intro model v
  have hexp : Exponential Real.exp :=
    ⟨Real.exp_pos, fun x y => by rw [Real.exp_sub, div_mul_cancel₀ _ (Real.exp_pos y).ne']⟩
  have hne : ([0, 1] : List ElementId) ≠ [] := by decide
  have hpossible : model.possibleBehaviors [0, 1] = {1, 0} := by decide
  obtain ⟨hvalue, hpos, hsum, hperm⟩ := model.probability_eq_share v hexp hne (by decide)
  refine ⟨?_, (hpos 1).2 (by decide), ?_, hsum _ (by decide), hperm _ (.swap 1 0 []) 0⟩
  · rw [hvalue, hpossible, if_pos (by decide), Finset.sum_pair (by decide)]
    norm_num [ResponseModel.strength, model, v]
  · rw [hvalue, hpossible, if_neg (by decide)]

end

end ResponseModel

end Conditioning
