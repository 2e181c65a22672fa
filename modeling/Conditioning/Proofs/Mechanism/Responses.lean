import Conditioning.Mechanism.Learning
import Conditioning.Proofs.Except

/-!
# What a response depends on

The response model asks for the weights of the elements shown with the behaviors
that are possible for them, and for nothing else.  Two ways to weigh pairs that
agree there (`ResponseModel.Agree`) give the same scores and probabilities.

A step learns first, then it responds, and the response changes no weight.  So
the weights that it leaves are those that the response was drawn with
(`Mechanism.step_fst`).

Only declared behaviors are possible, whatever the settings are
(`Configuration.Declares`).
-/

namespace Conditioning

namespace ResponseModel

variable {α : Type} {model : ResponseModel α} {elements : List ElementId}

theorem mem_feasibleBehaviors {behavior : BehaviorId} :
    behavior ∈ model.feasibleBehaviors elements ↔
      ∃ element ∈ elements, behavior ∈ model.feasibleFor element := by
  rw [feasibleBehaviors, mem_firstOccurrences, List.mem_flatMap]

/-! ## Weights that agree -/

/-- Two ways to weigh pairs agree where a stimulus asks. -/
def Agree (model : ResponseModel α) (elements : List ElementId)
    (v v' : ElementId → BehaviorId → α) : Prop :=
  ∀ element ∈ elements, ∀ behavior ∈ model.feasibleBehaviors elements,
    v element behavior = v' element behavior

namespace Agree

variable [Scalar α] {v v' : ElementId → BehaviorId → α}

theorem exponent_eq (h : model.Agree elements v v') {behavior : BehaviorId}
    (hbehavior : behavior ∈ model.feasibleBehaviors elements) :
    model.exponent elements v behavior = model.exponent elements v' behavior := by
  have hweights : (elements.map fun element => v element behavior) =
      elements.map fun element => v' element behavior :=
    List.map_congr_left fun element helement => h element helement behavior hbehavior
  rw [exponent, exponent, hweights]

theorem scores_eq (h : model.Agree elements v v') :
    model.scores elements v = model.scores elements v' := by
  have hexponents : (model.feasibleBehaviors elements).map (model.exponent elements v) =
      (model.feasibleBehaviors elements).map (model.exponent elements v') :=
    List.map_congr_left fun _ hbehavior => h.exponent_eq hbehavior
  simp only [scores, hexponents]
  refine List.map_congr_left fun behavior hbehavior => ?_
  rw [h.exponent_eq hbehavior]

theorem probability_eq (h : model.Agree elements v v') (behavior : BehaviorId) :
    model.probability elements behavior v = model.probability elements behavior v' := by
  simp only [probability, h.scores_eq]

end Agree

end ResponseModel

/-! ## The response of a step -/

namespace Mechanism

variable {α : Type} [Scalar α] (m : Mechanism α)

/-- The response of a step is drawn with the weights that the step leaves. -/
theorem step_fst (l : Learner α) (stimulus : Stimulus) (r : α) :
    (m.step l stimulus r).1 = m.respond (m.step l stimulus r).2 stimulus r := rfl

end Mechanism

/-! ## Declared behaviors -/

namespace Configuration

/-- Only declared behaviors are possible. -/
def Declares {α : Type} (config : Configuration α) : Prop :=
  ∀ row ∈ config.response.feasible, ∀ behavior ∈ row, behavior < config.vocabulary.behaviorCount

theorem Declares.lt_of_mem {α : Type} {config : Configuration α} (h : config.Declares)
    {elements : List ElementId} {behavior : BehaviorId}
    (hbehavior : behavior ∈ config.response.feasibleBehaviors elements) :
    behavior < config.vocabulary.behaviorCount := by
  obtain ⟨element, -, hmem⟩ := ResponseModel.mem_feasibleBehaviors.1 hbehavior
  rw [ResponseModel.feasibleFor, Array.getD_eq_getD_getElem?] at hmem
  cases hrow : config.response.feasible[element]? with
  | none =>
    rw [hrow] at hmem
    cases hmem
  | some row =>
    rw [hrow] at hmem
    exact h row (Array.mem_of_getElem? hrow) behavior hmem

variable {vocabulary : Vocabulary}

theorem lt_of_mem_replicate {row : List BehaviorId}
    (hrow : row ∈ Array.replicate vocabulary.elementCount (List.range vocabulary.behaviorCount))
    {behavior : BehaviorId} (hbehavior : behavior ∈ row) : behavior < vocabulary.behaviorCount := by
  rw [(Array.mem_replicate.1 hrow).2] at hbehavior
  exact List.mem_range.1 hbehavior

theorem declares_default {α : Type} [Scalar α] (vocabulary : Vocabulary) :
    (default vocabulary : Configuration α).Declares :=
  fun _ hrow _ hbehavior => lt_of_mem_replicate hrow hbehavior

/-- Requirements leave out declared behaviors, and add none. -/
theorem lt_of_mem_invertRequirements {setting : Literal} {feasible : Array (List BehaviorId)}
    (h : invertRequirements vocabulary setting = .ok feasible) {row : List BehaviorId}
    (hrow : row ∈ feasible) {behavior : BehaviorId} (hbehavior : behavior ∈ row) :
    behavior < vocabulary.behaviorCount := by
  unfold invertRequirements at h
  split at h
  next => cases h
  next =>
    obtain ⟨rows, -, h⟩ := bind_eq_ok.1 h
    simp only at h
    split at h
    next => cases h
    next =>
      cases h
      obtain ⟨element, -, rfl⟩ := List.mem_map.1 (List.mem_toArray.1 hrow)
      exact List.mem_range.1 (List.mem_filter.1 hbehavior).1

theorem lt_of_mem_possible {p : Parameters} {feasible : Array (List BehaviorId)}
    (h : possible vocabulary p = .ok feasible) {row : List BehaviorId} (hrow : row ∈ feasible)
    {behavior : BehaviorId} (hbehavior : behavior ∈ row) : behavior < vocabulary.behaviorCount := by
  unfold possible at h
  split at h
  next =>
    cases h
    exact lt_of_mem_replicate hrow hbehavior
  next => exact lt_of_mem_invertRequirements h hrow hbehavior

/-- What the parts of a configuration were read from. -/
structure ReadFrom (config : Configuration Float) (p : Parameters) : Prop where
  vocabulary : p.vocabulary = .ok config.vocabulary
  startV : expand (p.get? Parameter.startV) Parameter.startV config.vocabulary.pairCount 0.0
    .defaultOrAll (pairSlot config.vocabulary Parameter.startV) = .ok config.startV
  utility : expand (p.get? Parameter.utility) Parameter.utility config.vocabulary.elementCount 0.0
    .defaultOrAll (elementSlot config.vocabulary Parameter.utility) = .ok config.utility
  cost : expand p.cost? Parameter.cost config.vocabulary.behaviorCount 0.0
    .defaultOrAll (behaviorSlot config.vocabulary Parameter.cost) = .ok config.cost
  alphaV : expand (p.get? Parameter.alphaV) Parameter.alphaV config.vocabulary.pairCount 1.0
    .defaultOnly (pairSlot config.vocabulary Parameter.alphaV) = .ok config.alphaV
  alphaW : expand (p.get? Parameter.alphaW) Parameter.alphaW config.vocabulary.elementCount 1.0
    .defaultOnly (elementSlot config.vocabulary Parameter.alphaW) = .ok config.alphaW
  omitLearning : omitted config.vocabulary p = .ok config.omitLearning
  feasible : possible config.vocabulary p = .ok config.response.feasible

theorem readFrom_of_ofParameters {p : Parameters} {config : Configuration Float}
    (h : ofParameters p = .ok config) : config.ReadFrom p := by
  unfold ofParameters at h
  obtain ⟨vocabulary, hvocabulary, h⟩ := bind_eq_ok.1 h
  obtain ⟨startV, hstartV, h⟩ := bind_eq_ok.1 h
  obtain ⟨utility, hutility, h⟩ := bind_eq_ok.1 h
  obtain ⟨cost, hcost, h⟩ := bind_eq_ok.1 h
  obtain ⟨alphaV, halphaV, h⟩ := bind_eq_ok.1 h
  obtain ⟨alphaW, halphaW, h⟩ := bind_eq_ok.1 h
  obtain ⟨-, -, h⟩ := bind_eq_ok.1 h
  obtain ⟨beta, -, h⟩ := bind_eq_ok.1 h
  obtain ⟨omitLearning, homit, h⟩ := bind_eq_ok.1 h
  obtain ⟨feasible, hfeasible, h⟩ := bind_eq_ok.1 h
  cases h
  exact ⟨hvocabulary, hstartV, hutility, hcost, halphaV, halphaW, homit, hfeasible⟩

theorem declares_of_ofParameters {p : Parameters} {config : Configuration Float}
    (h : ofParameters p = .ok config) : config.Declares :=
  fun _ hrow _ hbehavior =>
    lt_of_mem_possible (readFrom_of_ofParameters h).feasible hrow hbehavior

end Configuration

/-- The settings of a mechanism are those that a script gives. -/
theorem Mechanism.configuration_of_ofParameters {p : Parameters} {m : Mechanism Float}
    (h : Mechanism.ofParameters p = .ok m) : Configuration.ofParameters p = .ok m.config := by
  unfold Mechanism.ofParameters at h
  simp only at h
  split at h
  next => cases h
  next =>
    split at h
    next => cases h
    next =>
      obtain ⟨name, -, h⟩ := bind_eq_ok.1 h
      obtain ⟨rule, -, h⟩ := bind_eq_ok.1 h
      obtain ⟨config, hconfig, h⟩ := bind_eq_ok.1 h
      cases h
      exact hconfig

/-- Whatever the settings of a script are, only declared behaviors are possible. -/
theorem Mechanism.declares_of_ofParameters {p : Parameters} {m : Mechanism Float}
    (h : Mechanism.ofParameters p = .ok m) : m.config.Declares :=
  Configuration.declares_of_ofParameters (Mechanism.configuration_of_ofParameters h)

end Conditioning
