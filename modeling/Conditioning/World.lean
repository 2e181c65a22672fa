import Conditioning.Phase.Step

/-!
# Worlds

A world is the phases of a run in order.  Each step is a step of the current
phase; when that phase is over the next one takes its place within the same
step, with the same response.  The last phase is never left.
-/

namespace Conditioning

/-- The phases of a run. -/
structure World where
  phases : List Phase

/-- The state of a world. -/
structure WorldState where
  current : Nat
  states : Array PhaseState

/-- What a world shows. -/
structure Emission where
  stimulus : Stimulus
  phase : Nat
  line : Nat
deriving DecidableEq, Repr

namespace World

/-- The world of a list of phases, which must not be empty. -/
def ofPhases (phases : List Phase) : Except Error World :=
  if phases.isEmpty then .error (.invalid .noPhases) else .ok ⟨phases⟩

/-- The state before the first stimulus. -/
def start (world : World) : WorldState :=
  ⟨0, (world.phases.map PhaseState.start).toArray⟩

/-- Back to the state before the first stimulus. -/
def reset (state : WorldState) : WorldState := ⟨0, state.states.map PhaseState.reset⟩

/-- The next stimulus, given the last response; none once every phase is over. -/
def next (world : World) (state : WorldState) (response : Option BehaviorId) (g : Generator) :
    Move WorldState Emission :=
  match world.phases[state.current]?, state.states[state.current]? with
  | some phase, some phaseState =>
    let move := phase.next phaseState response g
    let states := state.states.setIfInBounds state.current move.state
    match move.outcome with
    | .error error => ⟨.error error, ⟨state.current, states⟩, move.generator⟩
    | .ok (some (line, stimulus)) =>
      ⟨.ok (some ⟨stimulus, state.current, line⟩), ⟨state.current, states⟩, move.generator⟩
    | .ok none =>
      if state.current + 1 < world.phases.length then
        next world ⟨state.current + 1, states⟩ response move.generator
      else ⟨.ok none, ⟨state.current, states⟩, move.generator⟩
  | _, _ => ⟨.ok none, state, g⟩
termination_by world.phases.length - state.current

/-- The counts of the current phase. -/
def currentTally (state : WorldState) : Tally :=
  match state.states[state.current]? with
  | some phaseState => phaseState.tally
  | none => ⟨#[], #[], #[]⟩

end World

end Conditioning
