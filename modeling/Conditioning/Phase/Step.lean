import Conditioning.Phase.State

/-!
# Stepping through a phase

The first step shows the first line.  Every later step is given the response
to the stimulus last shown and looks for the next line: the first condition
whose guard holds and whose draw falls on an edge leads there.  A guard that
fails uses up no draw; a draw that falls on no edge is lost and the next
condition is tried.

The end condition is looked at after the move and before anything of it is
counted.  So the phase ends in place of the stimulus that comes after the last
counted occurrence, and the line that would have shown it is not counted.
-/

namespace Conditioning

/-- What came of a step: an outcome, the state it left, and the generator. -/
structure Move (σ ε : Type) where
  /-- The outcome; none at the end. -/
  outcome : Except Error (Option ε)
  /-- The state afterwards, also after an error. -/
  state : σ
  generator : Generator

/-- Whether a guard holds for a response that ends a succession. -/
def Guard.holds (guard : Guard) (response : Option BehaviorId) (streak : Streak) : Bool :=
  match guard.response, guard.count with
  | none, none => true
  | none, some n => n ≤ streak.visits.toNat
  | some behavior, none => response == some behavior
  | some behavior, some n => response == some behavior && n ≤ streak.repeats.toNat

/-- Draw an edge of a condition. -/
def Condition.draw (condition : Condition) (g : Generator) : Option Nat × Generator :=
  let drawn := g.chooseBelow condition.totals
  (drawn.1.bind fun i => condition.edges[i]?.map Edge.target, drawn.2)

/-- The line to which the first condition leads that leads anywhere. -/
def leadsTo (response : Option BehaviorId) (streak : Streak) :
    List Condition → Generator → Option Nat × Generator
  | [], g => (none, g)
  | condition :: conditions, g =>
    if condition.guard.holds response streak then
      match condition.draw g with
      | (some target, g) => (some target, g)
      | (none, g) => leadsTo response streak conditions g
    else leadsTo response streak conditions g

namespace Phase

variable (phase : Phase)

/-- The conditions of a line. -/
def conditionsAt (line : Nat) : List Condition :=
  match phase.lines[line]? with
  | some line => line.conditions
  | none => []

/-- The stimulus of a line. -/
def stimulusAt (line : Nat) : Stimulus :=
  match phase.lines[line]? with
  | some line => line.stimulus
  | none => ⟨[]⟩

/-- The label of a line. -/
def labelAt (line : Nat) : String :=
  match phase.lines[line]? with
  | some line => line.label
  | none => ""

/-- The name of a response, empty if there is none. -/
def responseName (response : Option BehaviorId) : String :=
  match response with
  | some behavior => phase.vocabulary.behaviorName behavior
  | none => ""

/-- The error of a response that leads nowhere. -/
def deadEnd (line : Nat) (response : Option BehaviorId) : Error :=
  .noConditionMet phase.label (phase.labelAt line) (phase.responseName response)

/-- Whether enough has been counted. -/
def isOver (state : PhaseState) : Bool :=
  phase.ending.threshold ≤ state.tally.get phase.ending.key

/-- Show the current line, unless the phase is over. -/
def present (state : PhaseState) (response : Option BehaviorId) (g : Generator) :
    Move PhaseState (Nat × Stimulus) :=
  if phase.isOver state then ⟨.ok none, state, g⟩
  else
    let stimulus := phase.stimulusAt state.current
    ⟨.ok (some (state.current, stimulus)),
      { state with tally := state.tally.record state.current stimulus response }, g⟩

/-- The next line and its stimulus, given the last response. -/
def next (state : PhaseState) (response : Option BehaviorId) (g : Generator) :
    Move PhaseState (Nat × Stimulus) :=
  if state.started then
    match leadsTo response (state.leaving response) (phase.conditionsAt state.current) g with
    | (none, g) =>
      ⟨.error (phase.deadEnd state.current response), state.leave response, g⟩
    | (some target, g) => phase.present (state.moveTo target response) response g
  else phase.present { state with started := true } response g

end Phase

end Conditioning
