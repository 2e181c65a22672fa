import Conditioning.Mechanism.Configuration
import Conditioning.Random.Choice

/-!
# Learning

A learner holds the weights, the saliences, and what it saw and did on the step
before.  When a stimulus appears it first learns from what followed its last
response, then it responds.  Nothing is learned on the first step, nor when an
element is shown that suppresses learning.

Learning computes one error for the weights, and one for the saliences where
the rule keeps them, from the tables as they are.  Then every element of the
stimulus before gets its share of the error, in order.
-/

namespace Conditioning

/-- A learning rule with its settings. -/
structure Mechanism (α : Type) where
  rule : Rule
  config : Configuration α

/-- What a subject has learned, and its last step. -/
structure Learner (α : Type) where
  v : Table α
  w : Table α
  /-- The last stimulus and the response to it. -/
  previous : Option (Stimulus × BehaviorId)

namespace Mechanism

/-! ## Making and starting -/

/-- The rule of a name, which has to exist. -/
def findRule (name : String) : Except Error Rule :=
  match Rule.ofName? name with
  | some rule => .ok rule
  | none => .error (.unknownMechanism name)

/-- The mechanism that the settings of a script stand for. -/
def ofParameters (p : Parameters) : Except Error (Mechanism Float) := do
  if !p.contains Parameter.behaviors then throw (.missingParameter Parameter.behaviors)
  if !p.contains Parameter.elements then throw (.missingParameter Parameter.elements)
  let name ← p.mechanismName
  let rule ← findRule name
  let config ← Configuration.ofParameters p
  return ⟨rule, config⟩

variable {α : Type} (m : Mechanism α)

/-- The declared elements and behaviors. -/
def vocabulary : Vocabulary := m.config.vocabulary

/-- Whether saliences are kept. -/
def hasSalience : Bool := m.rule.hasSalience

variable [Scalar α]

/-- A learner that has seen nothing. -/
def start : Learner α :=
  ⟨m.config.startV, Table.fill m.vocabulary.elementCount Scalar.zero, none⟩

/-- Make a learner forget everything. -/
def reset (l : Learner α) : Learner α :=
  ⟨m.config.startV, l.w.refill Scalar.zero, none⟩

/-! ## Weights and responses -/

/-- The weight of an element and a behavior. -/
def weight (l : Learner α) (element : ElementId) (behavior : BehaviorId) : α :=
  l.v.read (m.vocabulary.pair element behavior)

/-- The possible behaviors with their scores. -/
def scores (l : Learner α) (stimulus : Stimulus) : List (BehaviorId × α) :=
  m.config.response.scores stimulus.elements (m.weight l)

/-- The probability of a behavior. -/
def probability (l : Learner α) (stimulus : Stimulus) (behavior : BehaviorId) : α :=
  m.config.response.probability stimulus.elements behavior (m.weight l)

/-- The response that a number of `[0, 1)` chooses. -/
def respond (l : Learner α) (stimulus : Stimulus) (r : α) : BehaviorId :=
  let scores := m.scores l stimulus
  (scores.map Prod.fst).getD (Choice.weighted (scores.map Prod.snd) r) 0

/-! ## Future values -/

/-- The sum of an element's weights over its possible behaviors. -/
def possibleValue (l : Learner α) (element : ElementId) : α :=
  Scalar.sum ((m.config.response.feasibleFor element).map (m.weight l element))

/-- The value that an element's own responses lead to expect. -/
def expectedValue (l : Learner α) (element : ElementId) : α :=
  let scores := m.config.response.scores [element] (m.weight l)
  let total := ResponseModel.totalScore scores
  Scalar.sum (scores.map fun score => score.2 / total * m.weight l element score.1)

/-- The greatest possible value of the elements shown. -/
def greatestFuture (l : Learner α) (stimulus : Stimulus) : α :=
  Scalar.greatest (stimulus.elements.map (m.possibleValue l))

/-- The sum of the expected values of the elements shown. -/
def expectedFuture (l : Learner α) (stimulus : Stimulus) : α :=
  Scalar.sum (stimulus.elements.map (m.expectedValue l))

/-! ## Errors and updates -/

/-- The error of the weights. -/
def weightError (l : Learner α) (before : Stimulus) (response : BehaviorId)
    (stimulus : Stimulus) : α :=
  let utility := Scalar.sum (stimulus.elements.map m.config.utility.read)
  let value := Scalar.sum (before.elements.map fun element => m.weight l element response)
  let salience := Scalar.sum (stimulus.elements.map l.w.read)
  let salienceBefore := Scalar.sum (before.elements.map l.w.read)
  let cost := m.config.cost.read response
  match m.rule with
  | .rescorlaWagner => utility - value - cost
  | .qLearning => utility + m.greatestFuture l stimulus - value - cost
  | .expectedSarsa => utility + m.expectedFuture l stimulus - value - cost
  | .actorCritic => utility + salience - cost - salienceBefore
  | .enquist => utility + salience - cost - value

/-- The error of the saliences. -/
def salienceError (l : Learner α) (before : Stimulus) (response : BehaviorId)
    (stimulus : Stimulus) : α :=
  let utility := Scalar.sum (stimulus.elements.map m.config.utility.read)
  let salience := Scalar.sum (stimulus.elements.map l.w.read)
  let salienceBefore := Scalar.sum (before.elements.map l.w.read)
  utility + salience - m.config.cost.read response - salienceBefore

/-- Give each element its share of the error of the weights. -/
def moveWeights (v : Table α) (elements : List ElementId) (response : BehaviorId) (error : α) :
    Table α :=
  elements.foldl (fun v element =>
    let pair := m.vocabulary.pair element response
    v.add pair (m.config.alphaV.read pair * error)) v

/-- Give each element its share of the error of the saliences. -/
def moveSaliences (w : Table α) (elements : List ElementId) (error : α) : Table α :=
  elements.foldl (fun w element => w.add element (m.config.alphaW.read element * error)) w

/-- Whether a stimulus suppresses learning. -/
def suppresses (stimulus : Stimulus) : Bool :=
  stimulus.elements.any fun element => m.config.omitLearning.getD element false

/-- The tables after learning that a stimulus followed a response. -/
def update (l : Learner α) (before : Stimulus) (response : BehaviorId) (stimulus : Stimulus) :
    Learner α :=
  { l with
    v := m.moveWeights l.v before.elements response (m.weightError l before response stimulus)
    w := if m.hasSalience then
        m.moveSaliences l.w before.elements (m.salienceError l before response stimulus)
      else l.w }

/-- Learn from the appearance of a stimulus. -/
def learn (l : Learner α) (stimulus : Stimulus) : Learner α :=
  if m.suppresses stimulus then l
  else match l.previous with
    | none => l
    | some (before, response) => m.update l before response stimulus

/-- Learn from the appearance of a stimulus and respond to it. -/
def step (l : Learner α) (stimulus : Stimulus) (r : α) : BehaviorId × Learner α :=
  let learned := m.learn l stimulus
  let response := m.respond learned stimulus r
  (response, { learned with previous := some (stimulus, response) })

end Mechanism

end Conditioning
