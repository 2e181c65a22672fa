import Conditioning.Proofs.Checked.Access
import Conditioning.Proofs.Mechanism.WellFormed

/-!
# Checked learning

A step of learning reads the settings of the elements shown and of the response
before, and the weights and saliences of both stimuli; it writes the cells of the
stimulus before.  Here all of these accesses are checked, and so is the place of
the response among the scores.  On tables that fit the vocabulary, and for declared
elements, the checked step gives what the step gives (`Mechanism.step?_eq`).
-/

namespace Conditioning

/-! ## Scores -/

namespace ResponseModel

variable {α : Type}

/-- The possible behaviors of an element that has to have some settled. -/
def feasibleFor? (model : ResponseModel α) (element : ElementId) : Option (List BehaviorId) :=
  model.feasible[element]?

/-- The possible behaviors of a stimulus. -/
def feasibleBehaviors? (model : ResponseModel α) (elements : List ElementId) :
    Option (List BehaviorId) := do
  let rows ← elements.mapM model.feasibleFor?
  return firstOccurrences rows.flatten

variable [Scalar α]

/-- The exponent of a behavior's score. -/
def exponent? (model : ResponseModel α) (elements : List ElementId)
    (v? : ElementId → BehaviorId → Option α) (behavior : BehaviorId) : Option α := do
  let weights ← elements.mapM fun element => v? element behavior
  return model.beta * Scalar.sum weights

/-- The possible behaviors with their scores. -/
def scores? (model : ResponseModel α) (elements : List ElementId)
    (v? : ElementId → BehaviorId → Option α) : Option (List (BehaviorId × α)) := do
  let behaviors ← model.feasibleBehaviors? elements
  let exponents ← behaviors.mapM (model.exponent? elements v?)
  return (behaviors.zip exponents).map fun score =>
    (score.1, Scalar.exp (score.2 - shift exponents))

variable {model : ResponseModel α} {elements : List ElementId}

omit [Scalar α] in
theorem feasibleBehaviors?_eq
    (h : ∀ element ∈ elements, model.feasibleFor? element = some (model.feasibleFor element)) :
    model.feasibleBehaviors? elements = some (model.feasibleBehaviors elements) := by
  rw [feasibleBehaviors?, mapM_eq_some h]
  rfl

theorem scores?_eq {v? : ElementId → BehaviorId → Option α} {v : ElementId → BehaviorId → α}
    (h : ∀ element ∈ elements, model.feasibleFor? element = some (model.feasibleFor element))
    (hv : ∀ element ∈ elements, ∀ behavior ∈ model.feasibleBehaviors elements,
      v? element behavior = some (v element behavior)) :
    model.scores? elements v? = some (model.scores elements v) := by
  have hexponent : ∀ behavior ∈ model.feasibleBehaviors elements,
      model.exponent? elements v? behavior = some (model.exponent elements v behavior) := by
    intro behavior hbehavior
    rw [exponent?, mapM_eq_some fun element helement => hv element helement behavior hbehavior]
    rfl
  have hzip := List.map_prod_left_eq_zip (l := model.feasibleBehaviors elements)
    (f := model.exponent elements v)
  rw [scores?, feasibleBehaviors?_eq h, Option.bind_eq_bind, Option.bind_some,
    mapM_eq_some hexponent, Option.bind_eq_bind, Option.bind_some, ← hzip, List.map_map]
  rfl

end ResponseModel

namespace Mechanism

variable {α : Type} [Scalar α] (m : Mechanism α)

/-! ## Responses -/

/-- The weight of an element and a behavior. -/
def weight? (l : Learner α) (element : ElementId) (behavior : BehaviorId) : Option α := do
  let pair ← m.vocabulary.pair? element behavior
  l.v.read? pair

/-- The possible behaviors with their scores. -/
def scores? (l : Learner α) (stimulus : Stimulus) : Option (List (BehaviorId × α)) :=
  m.config.response.scores? stimulus.elements (m.weight? l)

/-- The response that a number of `[0, 1)` chooses. -/
def respond? (l : Learner α) (stimulus : Stimulus) (r : α) : Option BehaviorId := do
  let scores ← m.scores? l stimulus
  (scores.map Prod.fst)[Choice.weighted (scores.map Prod.snd) r]?

/-! ## Future values -/

/-- The sum of an element's weights over its possible behaviors. -/
def possibleValue? (l : Learner α) (element : ElementId) : Option α := do
  let behaviors ← m.config.response.feasibleFor? element
  let weights ← behaviors.mapM (m.weight? l element)
  return Scalar.sum weights

/-- The value that an element's own responses lead to expect. -/
def expectedValue? (l : Learner α) (element : ElementId) : Option α := do
  let scores ← m.config.response.scores? [element] (m.weight? l)
  let shares ← scores.mapM fun score => do
    let weight ← m.weight? l element score.1
    return score.2 / ResponseModel.totalScore scores * weight
  return Scalar.sum shares

/-- The greatest possible value of the elements shown. -/
def greatestFuture? (l : Learner α) (stimulus : Stimulus) : Option α := do
  let values ← stimulus.elements.mapM (m.possibleValue? l)
  return Scalar.greatest values

/-- The sum of the expected values of the elements shown. -/
def expectedFuture? (l : Learner α) (stimulus : Stimulus) : Option α := do
  let values ← stimulus.elements.mapM (m.expectedValue? l)
  return Scalar.sum values

/-! ## Errors and updates -/

/-- The error of the weights. -/
def weightError? (l : Learner α) (before : Stimulus) (response : BehaviorId)
    (stimulus : Stimulus) : Option α := do
  let utility ← m.config.utility.sumOf? stimulus.elements
  let values ← before.elements.mapM fun element => m.weight? l element response
  let value := Scalar.sum values
  let salience ← l.w.sumOf? stimulus.elements
  let salienceBefore ← l.w.sumOf? before.elements
  let cost ← m.config.cost.read? response
  match m.rule with
  | .rescorlaWagner => return utility - value - cost
  | .qLearning =>
    let future ← m.greatestFuture? l stimulus
    return utility + future - value - cost
  | .expectedSarsa =>
    let future ← m.expectedFuture? l stimulus
    return utility + future - value - cost
  | .actorCritic => return utility + salience - cost - salienceBefore
  | .enquist => return utility + salience - cost - value

/-- The error of the saliences. -/
def salienceError? (l : Learner α) (before : Stimulus) (response : BehaviorId)
    (stimulus : Stimulus) : Option α := do
  let utility ← m.config.utility.sumOf? stimulus.elements
  let salience ← l.w.sumOf? stimulus.elements
  let salienceBefore ← l.w.sumOf? before.elements
  let cost ← m.config.cost.read? response
  return utility + salience - cost - salienceBefore

/-- Give each element its share of the error of the weights. -/
def moveWeights? (v : Table α) (elements : List ElementId) (response : BehaviorId) (error : α) :
    Option (Table α) :=
  elements.foldlM (fun v element => do
    let pair ← m.vocabulary.pair? element response
    let rate ← m.config.alphaV.read? pair
    v.add? pair (rate * error)) v

/-- Give each element its share of the error of the saliences. -/
def moveSaliences? (w : Table α) (elements : List ElementId) (error : α) : Option (Table α) :=
  elements.foldlM (fun w element => do
    let rate ← m.config.alphaW.read? element
    w.add? element (rate * error)) w

/-- Whether a stimulus suppresses learning. -/
def suppresses? (stimulus : Stimulus) : Option Bool := do
  let marks ← stimulus.elements.mapM fun element => m.config.omitLearning[element]?
  return marks.any id

/-- The tables after learning that a stimulus followed a response. -/
def update? (l : Learner α) (before : Stimulus) (response : BehaviorId) (stimulus : Stimulus) :
    Option (Learner α) := do
  let error ← m.weightError? l before response stimulus
  let v ← m.moveWeights? l.v before.elements response error
  if m.hasSalience then
    let error ← m.salienceError? l before response stimulus
    let w ← m.moveSaliences? l.w before.elements error
    return { l with v, w }
  else return { l with v }

/-- Learn from the appearance of a stimulus. -/
def learn? (l : Learner α) (stimulus : Stimulus) : Option (Learner α) := do
  let suppressed ← m.suppresses? stimulus
  if suppressed then return l
  else match l.previous with
    | none => return l
    | some (before, response) => m.update? l before response stimulus

/-- Learn from the appearance of a stimulus and respond to it. -/
def step? (l : Learner α) (stimulus : Stimulus) (r : α) : Option (BehaviorId × Learner α) := do
  let learned ← m.learn? l stimulus
  let response ← m.respond? learned stimulus r
  return (response, { learned with previous := some (stimulus, response) })

/-! ## Every access is in range -/

variable {m} {l : Learner α} {stimulus before : Stimulus} {response : BehaviorId}

theorem weight?_eq (hl : l.Fits m.vocabulary) {element : ElementId} {behavior : BehaviorId}
    (helement : element < m.vocabulary.elementCount)
    (hbehavior : behavior < m.vocabulary.behaviorCount) :
    m.weight? l element behavior = some (m.weight l element behavior) := by
  rw [weight?, Vocabulary.pair?_eq helement hbehavior, Option.bind_eq_bind, Option.bind_some]
  exact Table.read?_eq (hl.v ▸ m.vocabulary.pair_lt helement hbehavior)

theorem scores?_eq_of_declared (hm : m.config.WellFormed) (hl : l.Fits m.vocabulary)
    {elements : List ElementId} (h : ∀ element ∈ elements, element < m.vocabulary.elementCount) :
    m.config.response.scores? elements (m.weight? l) =
      some (m.config.response.scores elements (m.weight l)) :=
  ResponseModel.scores?_eq (fun element helement => hm.feasibleFor?_eq (h element helement))
    fun element helement _ hbehavior =>
      weight?_eq hl (h element helement) (hm.declares.lt_of_mem hbehavior)

theorem respond?_eq (hm : m.config.WellFormed) (hl : l.Fits m.vocabulary)
    (hstimulus : stimulus.Declared m.vocabulary) (r : α) :
    m.respond? l stimulus r = some (m.respond l stimulus r) := by
  have hscores : m.scores? l stimulus = some (m.scores l stimulus) :=
    scores?_eq_of_declared hm hl hstimulus.lt
  rw [respond?, hscores, Option.bind_eq_bind, Option.bind_some]
  exact getElem?_respond hm hstimulus l r

theorem possibleValue?_eq (hm : m.config.WellFormed) (hl : l.Fits m.vocabulary)
    {element : ElementId} (helement : element < m.vocabulary.elementCount) :
    m.possibleValue? l element = some (m.possibleValue l element) := by
  have hrow := hm.feasibleFor?_eq helement
  have hweight : ∀ behavior ∈ m.config.response.feasibleFor element,
      m.weight? l element behavior = some (m.weight l element behavior) := fun behavior hbehavior =>
    weight?_eq hl helement (hm.declares _ (Array.mem_of_getElem? hrow) behavior hbehavior)
  rw [possibleValue?, ResponseModel.feasibleFor?, hrow, Option.bind_eq_bind, Option.bind_some,
    mapM_eq_some hweight]
  rfl

theorem expectedValue?_eq (hm : m.config.WellFormed) (hl : l.Fits m.vocabulary)
    {element : ElementId} (helement : element < m.vocabulary.elementCount) :
    m.expectedValue? l element = some (m.expectedValue l element) := by
  have hdeclared : ∀ other ∈ [element], other < m.vocabulary.elementCount := by
    intro other hother
    rw [List.mem_singleton.1 hother]
    exact helement
  have hshare : ∀ score ∈ m.config.response.scores [element] (m.weight l),
      (m.weight? l element score.1 >>= fun weight => pure
        (score.2 / ResponseModel.totalScore (m.config.response.scores [element] (m.weight l)) *
          weight)) =
        some (score.2 / ResponseModel.totalScore (m.config.response.scores [element] (m.weight l)) *
          m.weight l element score.1) := by
    intro score hscore
    have hmem : score.1 ∈ m.config.response.feasibleBehaviors [element] := by
      rw [← ResponseModel.map_fst_scores _ _ (m.weight l)]
      exact List.mem_map_of_mem hscore
    rw [weight?_eq hl helement (hm.declares.lt_of_mem hmem)]
    rfl
  rw [expectedValue?, scores?_eq_of_declared hm hl hdeclared, Option.bind_eq_bind,
    Option.bind_some, mapM_eq_some hshare]
  rfl

theorem weightError?_eq (hm : m.config.WellFormed) (hl : l.Fits m.vocabulary)
    (hbefore : before.Declared m.vocabulary) (hresponse : response < m.vocabulary.behaviorCount)
    (hstimulus : stimulus.Declared m.vocabulary) :
    m.weightError? l before response stimulus =
      some (m.weightError l before response stimulus) := by
  have hutility := Table.sumOf?_eq fun element helement =>
    hm.utility ▸ hstimulus.lt element helement
  have hvalue := mapM_eq_some fun element helement =>
    weight?_eq hl (hbefore.lt element helement) hresponse
  have hsalience := Table.sumOf?_eq fun element helement =>
    hl.w ▸ hstimulus.lt element helement
  have hsalienceBefore := Table.sumOf?_eq fun element helement =>
    hl.w ▸ hbefore.lt element helement
  have hcost := Table.read?_eq (hm.cost ▸ hresponse)
  have hgreatest := mapM_eq_some fun element helement =>
    possibleValue?_eq hm hl (hstimulus.lt element helement)
  have hexpected := mapM_eq_some fun element helement =>
    expectedValue?_eq hm hl (hstimulus.lt element helement)
  simp only [weightError?, hutility, hvalue, hsalience, hsalienceBefore, hcost, greatestFuture?,
    hgreatest, expectedFuture?, hexpected, weightError, Option.bind_eq_bind, Option.bind_some]
  cases m.rule <;> rfl

theorem salienceError?_eq (hm : m.config.WellFormed) (hl : l.Fits m.vocabulary)
    (hbefore : before.Declared m.vocabulary) (hresponse : response < m.vocabulary.behaviorCount)
    (hstimulus : stimulus.Declared m.vocabulary) :
    m.salienceError? l before response stimulus =
      some (m.salienceError l before response stimulus) := by
  have hutility := Table.sumOf?_eq fun element helement =>
    hm.utility ▸ hstimulus.lt element helement
  have hsalience := Table.sumOf?_eq fun element helement =>
    hl.w ▸ hstimulus.lt element helement
  have hsalienceBefore := Table.sumOf?_eq fun element helement =>
    hl.w ▸ hbefore.lt element helement
  have hcost := Table.read?_eq (hm.cost ▸ hresponse)
  rw [salienceError?, hutility, hsalience, hsalienceBefore, hcost]
  rfl

theorem moveWeights?_eq (hm : m.config.WellFormed) {v : Table α}
    (hv : v.size = m.vocabulary.pairCount) (hbefore : before.Declared m.vocabulary)
    (hresponse : response < m.vocabulary.behaviorCount) (error : α) :
    m.moveWeights? v before.elements response error =
      some (m.moveWeights v before.elements response error) := by
  refine (foldlM_eq_some (P := fun v => v.size = m.vocabulary.pairCount)
    (fun v hv element helement => ⟨?_, (Table.size_add ..).trans hv⟩) hv).1
  have hpair := m.vocabulary.pair_lt (hbefore.lt element helement) hresponse
  rw [Vocabulary.pair?_eq (hbefore.lt element helement) hresponse, Option.bind_eq_bind,
    Option.bind_some, Table.read?_eq (hm.alphaV ▸ hpair), Option.bind_eq_bind, Option.bind_some]
  exact Table.add?_eq (hv ▸ hpair) _

theorem moveSaliences?_eq (hm : m.config.WellFormed) {w : Table α}
    (hw : w.size = m.vocabulary.elementCount) (hbefore : before.Declared m.vocabulary) (error : α) :
    m.moveSaliences? w before.elements error = some (m.moveSaliences w before.elements error) := by
  refine (foldlM_eq_some (P := fun w => w.size = m.vocabulary.elementCount)
    (fun w hw element helement => ⟨?_, (Table.size_add ..).trans hw⟩) hw).1
  have hlt := hbefore.lt element helement
  rw [Table.read?_eq (hm.alphaW ▸ hlt), Option.bind_eq_bind, Option.bind_some]
  exact Table.add?_eq (hw ▸ hlt) _

omit [Scalar α] in
theorem suppresses?_eq (hm : m.config.WellFormed) (hstimulus : stimulus.Declared m.vocabulary) :
    m.suppresses? stimulus = some (m.suppresses stimulus) := by
  have hmark : ∀ element ∈ stimulus.elements, m.config.omitLearning[element]? =
      some (m.config.omitLearning.getD element false) := by
    intro element helement
    have hlt : element < m.config.omitLearning.size :=
      hm.omitLearning ▸ hstimulus.lt element helement
    rw [Array.getD_eq_getD_getElem?, Array.getElem?_eq_getElem hlt]
    rfl
  rw [suppresses?, mapM_eq_some hmark, Option.bind_eq_bind, Option.bind_some, List.any_map]
  rfl

theorem update?_eq (hm : m.config.WellFormed) (hl : l.Fits m.vocabulary)
    (hbefore : before.Declared m.vocabulary) (hresponse : response < m.vocabulary.behaviorCount)
    (hstimulus : stimulus.Declared m.vocabulary) :
    m.update? l before response stimulus = some (m.update l before response stimulus) := by
  have herror := weightError?_eq hm hl hbefore hresponse hstimulus
  have hweights := moveWeights?_eq hm hl.v hbefore hresponse
    (m.weightError l before response stimulus)
  have herror' := salienceError?_eq hm hl hbefore hresponse hstimulus
  have hsaliences := moveSaliences?_eq hm hl.w hbefore (m.salienceError l before response stimulus)
  simp only [update?, herror, hweights, herror', hsaliences, update, Option.bind_eq_bind,
    Option.bind_some]
  split <;> rfl

theorem learn?_eq (hm : m.config.WellFormed) (hl : l.Fits m.vocabulary)
    (hstimulus : stimulus.Declared m.vocabulary) :
    m.learn? l stimulus = some (m.learn l stimulus) := by
  rw [learn?, suppresses?_eq hm hstimulus, Option.bind_eq_bind, Option.bind_some, learn]
  split
  next => rfl
  next =>
    cases hprevious : l.previous with
    | none => rfl
    | some previous =>
      obtain ⟨hbefore, hresponse⟩ := hl.previous previous.1 previous.2 hprevious
      exact update?_eq hm hl hbefore hresponse hstimulus

/-- A step of learning uses no number that is out of range. -/
theorem step?_eq (hm : m.config.WellFormed) (hl : l.Fits m.vocabulary)
    (hstimulus : stimulus.Declared m.vocabulary) (r : α) :
    m.step? l stimulus r = some (m.step l stimulus r) := by
  rw [step?, learn?_eq hm hl hstimulus, Option.bind_eq_bind, Option.bind_some,
    respond?_eq hm (fits_learn hl stimulus r) hstimulus]
  rfl

end Mechanism

end Conditioning
