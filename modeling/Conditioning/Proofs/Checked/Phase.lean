import Conditioning.Proofs.Checked.Access
import Conditioning.Proofs.World.WellFormed

/-!
# Checked phases and worlds

A call of a phase reads its current line, the succession that the line is in, and
the edge that was drawn; it looks up the count that the end condition names, and
adds to the counts of the line, of the elements shown and of the response.  Here
all of these are checked.  In a phase that points at nothing missing, a checked
call gives what the call gives, in every state that calls and resets lead to and
for every declared response (`Phase.next?_eq`), and so does a checked call of a
world of such phases (`World.next?_eq`).
-/

namespace Conditioning

/-! ## Counts -/

namespace Tally

/-- The count that an end condition looks at. -/
def get? (tally : Tally) : EndKey → Option Nat
  | .line line => tally.lineWords[line]?.map UInt32.toNat
  | .element element => tally.elementWords[element]?.map UInt32.toNat
  | .behavior behavior => tally.behaviorWords[behavior]?.map UInt32.toNat

/-- Count one occurrence. -/
def bump? (counts : Array UInt32) (i : Nat) : Option (Array UInt32) := modify? counts i (· + 1)

/-- Count the visit of a line, the elements it shows, and the response that led to it. -/
def record? (tally : Tally) (line : Nat) (stimulus : Stimulus) (response : Option BehaviorId) :
    Option Tally := do
  let lineWords ← bump? tally.lineWords line
  let elementWords ← stimulus.elements.foldlM bump? tally.elementWords
  let behaviorWords ← match response with
    | some behavior => bump? tally.behaviorWords behavior
    | none => some tally.behaviorWords
  return ⟨lineWords, elementWords, behaviorWords⟩

end Tally

namespace PhaseState.Fits

variable {state : PhaseState} {phase : Phase}

theorem get?_eq (h : state.Fits phase) {key : EndKey} (hkey : key.IsOf phase) :
    state.tally.get? key = some (state.tally.get key) := by
  cases key with
  | line line =>
    exact congrArg (Option.map UInt32.toNat) (getElem?_eq_getD (h.lines ▸ hkey) 0)
  | element element =>
    exact congrArg (Option.map UInt32.toNat) (getElem?_eq_getD (h.elements ▸ hkey) 0)
  | behavior behavior =>
    exact congrArg (Option.map UInt32.toNat) (getElem?_eq_getD (h.behaviors ▸ hkey) 0)

theorem record?_eq (h : state.Fits phase) {line : Nat} {stimulus : Stimulus}
    {response : Option BehaviorId} (hline : line < phase.lines.length)
    (hstimulus : stimulus.Declared phase.vocabulary)
    (hresponse : ∀ behavior ∈ response, behavior < phase.vocabulary.behaviorCount) :
    state.tally.record? line stimulus response =
      some (state.tally.record line stimulus response) := by
  have hlines := modify?_eq (h.lines ▸ hline) (· + 1)
  have helements : stimulus.elements.foldlM Tally.bump? state.tally.elementWords =
      some (stimulus.elements.foldl Tally.bump state.tally.elementWords) := by
    refine (foldlM_eq_some (P := fun counts => counts.size = phase.vocabulary.elementCount)
      (fun counts hcounts element helement => ?_) h.elements).1
    exact ⟨modify?_eq (hcounts ▸ hstimulus.lt element helement) _,
      Array.size_modify.trans hcounts⟩
  rw [Tally.record?, Tally.bump?, hlines, helements]
  cases response with
  | none => rfl
  | some behavior =>
    have hbehaviors := modify?_eq (h.behaviors ▸ hresponse behavior rfl) (· + 1)
    simp only [Tally.bump?, hbehaviors, Option.bind_eq_bind, Option.bind_some]
    rfl

end PhaseState.Fits

/-! ## Successions -/

namespace PhaseState

variable (state : PhaseState)

/-- The succession that the current line is in once it is left with a response. -/
def leaving? (response : Option BehaviorId) : Option Streak := do
  let streak ← state.streaks[state.current]?
  return streak.extend (state.previous == some state.current) response

/-- The state in which the current line was left with a response. -/
def leave? (response : Option BehaviorId) : Option PhaseState := do
  let streak ← state.leaving? response
  let streaks ← put? state.streaks state.current streak
  return { state with streaks }

/-- The state in which the current line was left with a response for another line. -/
def moveTo? (target : Nat) (response : Option BehaviorId) : Option PhaseState := do
  let left ← state.leave? response
  return { left with current := target, previous := some state.current }

variable {state}

theorem leaving?_eq (h : state.current < state.streaks.size) (response : Option BehaviorId) :
    state.leaving? response = some (state.leaving response) := by
  rw [leaving?, getElem?_eq_getD h Streak.start]
  rfl

theorem leave?_eq (h : state.current < state.streaks.size) (response : Option BehaviorId) :
    state.leave? response = some (state.leave response) := by
  rw [leave?, leaving?_eq h, Option.bind_eq_bind, Option.bind_some, put?_eq h]
  rfl

theorem moveTo?_eq (h : state.current < state.streaks.size) (target : Nat)
    (response : Option BehaviorId) :
    state.moveTo? target response = some (state.moveTo target response) := by
  rw [moveTo?, leave?_eq h]
  rfl

end PhaseState

/-! ## Edges -/

/-- Draw an edge of a condition. -/
def Condition.draw? (condition : Condition) (g : Generator) : Option (Option Nat × Generator) :=
  let drawn := g.chooseBelow condition.totals
  match drawn.1 with
  | some i => do
    let edge ← condition.edges[i]?
    return (some edge.target, drawn.2)
  | none => some (none, drawn.2)

theorem Condition.draw?_eq (condition : Condition) (g : Generator) :
    condition.draw? g = some (condition.draw g) := by
  simp only [draw?, draw]
  cases hdrawn : (g.chooseBelow condition.totals).1 with
  | none => rfl
  | some i =>
    have hedge := List.getElem?_eq_getElem (lt_length_of_chooseBelow hdrawn)
    simp only [hedge, Option.bind_eq_bind, Option.bind_some]
    rfl

/-- The line to which the first condition leads that leads anywhere. -/
def leadsTo? (response : Option BehaviorId) (streak : Streak) :
    List Condition → Generator → Option (Option Nat × Generator)
  | [], g => some (none, g)
  | condition :: conditions, g =>
    if condition.guard.holds response streak then
      match condition.draw? g with
      | some (some target, g) => some (some target, g)
      | some (none, g) => leadsTo? response streak conditions g
      | none => none
    else leadsTo? response streak conditions g

theorem leadsTo?_eq (response : Option BehaviorId) (streak : Streak) (conditions : List Condition)
    (g : Generator) :
    leadsTo? response streak conditions g = some (leadsTo response streak conditions g) := by
  induction conditions generalizing g with
  | nil => rfl
  | cons condition conditions ih =>
    rw [leadsTo?, leadsTo, condition.draw?_eq]
    split
    next =>
      cases hdraw : condition.draw g with
      | mk found g' =>
        cases found with
        | some target => rfl
        | none => exact ih g'
    next => exact ih g

/-! ## Phases -/

namespace Phase

variable (phase : Phase)

/-- The name of a response, empty if there is none. -/
def responseName? (response : Option BehaviorId) : Option String :=
  match response with
  | some behavior => phase.vocabulary.behaviors[behavior]?
  | none => some ""

/-- The error of a response that leads nowhere. -/
def deadEnd? (line : Nat) (response : Option BehaviorId) : Option Error := do
  let shown ← phase.lines[line]?
  let name ← phase.responseName? response
  return .noConditionMet phase.label shown.label name

/-- Whether enough has been counted. -/
def isOver? (state : PhaseState) : Option Bool := do
  let count ← state.tally.get? phase.ending.key
  return phase.ending.threshold ≤ count

/-- Show the current line, unless the phase is over. -/
def present? (state : PhaseState) (response : Option BehaviorId) (g : Generator) :
    Option (Move PhaseState (Nat × Stimulus)) := do
  let isOver ← phase.isOver? state
  if isOver then return ⟨.ok none, state, g⟩
  else
    let line ← phase.lines[state.current]?
    let tally ← state.tally.record? state.current line.stimulus response
    return ⟨.ok (some (state.current, line.stimulus)), { state with tally }, g⟩

/-- The next line and its stimulus, given the last response. -/
def next? (state : PhaseState) (response : Option BehaviorId) (g : Generator) :
    Option (Move PhaseState (Nat × Stimulus)) :=
  if state.started then do
    let line ← phase.lines[state.current]?
    let streak ← state.leaving? response
    let found ← leadsTo? response streak line.conditions g
    match found with
    | (none, g) =>
      let error ← phase.deadEnd? state.current response
      let left ← state.leave? response
      return ⟨.error error, left, g⟩
    | (some target, g) =>
      let moved ← state.moveTo? target response
      phase.present? moved response g
  else phase.present? { state with started := true } response g

variable {phase} {state : PhaseState} {response : Option BehaviorId}

theorem deadEnd?_eq {line : Nat} (hline : line < phase.lines.length)
    (hresponse : ∀ behavior ∈ response, behavior < phase.vocabulary.behaviorCount) :
    phase.deadEnd? line response = some (phase.deadEnd line response) := by
  have hname : phase.responseName? response = some (phase.responseName response) := by
    cases response with
    | none => rfl
    | some behavior =>
      have hlt : behavior < phase.vocabulary.behaviors.length := hresponse behavior rfl
      rw [responseName?, responseName, Vocabulary.behaviorName, List.getD_eq_getElem?_getD,
        List.getElem?_eq_getElem hlt]
      rfl
  rw [deadEnd?, deadEnd, labelAt, hname, List.getElem?_eq_getElem hline]
  rfl

theorem WellFormed.present?_eq (h : phase.WellFormed) (hfits : state.Fits phase)
    (hcurrent : state.current < phase.lines.length)
    (hresponse : ∀ behavior ∈ response, behavior < phase.vocabulary.behaviorCount)
    (g : Generator) :
    phase.present? state response g = some (phase.present state response g) := by
  have hover : phase.isOver? state = some (phase.isOver state) := by
    rw [isOver?, hfits.get?_eq h.key_isOf]
    rfl
  have hrecord := hfits.record?_eq hcurrent (h.declared_stimulusAt hcurrent) hresponse
  have hline := List.getElem?_eq_getElem hcurrent
  rw [stimulusAt, hline] at hrecord
  rw [present?, present, stimulusAt, hover, hline, Option.bind_eq_bind, Option.bind_some]
  split
  next => rfl
  next =>
    rw [Option.bind_eq_bind, Option.bind_some, hrecord]
    rfl

/-- A call of a phase uses no number that is out of range. -/
theorem WellFormed.next?_eq (h : phase.WellFormed) (hstate : phase.Reachable state)
    (hresponse : ∀ behavior ∈ response, behavior < phase.vocabulary.behaviorCount)
    (g : Generator) :
    phase.next? state response g = some (phase.next state response g) := by
  have hcurrent := hstate.current_lt h
  have hstreak : state.current < state.streaks.size := hstate.fits.streaks ▸ hcurrent
  have hline := List.getElem?_eq_getElem hcurrent
  have hconditions : phase.conditionsAt state.current = phase.lines[state.current].conditions := by
    rw [conditionsAt, hline]
  rw [next?, next, hline, Option.bind_eq_bind, Option.bind_some, PhaseState.leaving?_eq hstreak,
    Option.bind_eq_bind, Option.bind_some, leadsTo?_eq, Option.bind_eq_bind, Option.bind_some,
    ← hconditions]
  split
  next =>
    cases hleads : leadsTo response (state.leaving response) (phase.conditionsAt state.current) g
      with
    | mk found g' =>
      cases found with
      | none =>
        simp only [deadEnd?_eq hcurrent hresponse, PhaseState.leave?_eq hstreak,
          Option.bind_eq_bind, Option.bind_some]
        rfl
      | some target =>
        simp only [PhaseState.moveTo?_eq hstreak, Option.bind_eq_bind, Option.bind_some]
        exact h.present?_eq (hstate.fits.moveTo target response) (h.target_lt_of_leadsTo hleads)
          hresponse g'
  next =>
    have hopened : PhaseState.Fits { state with started := true } phase :=
      ⟨hstate.fits.streaks, hstate.fits.lines, hstate.fits.elements, hstate.fits.behaviors⟩
    exact h.present?_eq hopened hcurrent hresponse g

end Phase

/-! ## Worlds -/

namespace World

/-- The call of the current phase, and the states of all phases after it. -/
def call? (world : World) (state : WorldState) (response : Option BehaviorId) (g : Generator) :
    Option (Move PhaseState (Nat × Stimulus) × Array PhaseState) := do
  let phase ← world.phases[state.current]?
  let phaseState ← state.states[state.current]?
  let move ← phase.next? phaseState response g
  let states ← put? state.states state.current move.state
  return (move, states)

/-- The next stimulus, given the last response; none once every phase is over. -/
def next? (world : World) (state : WorldState) (response : Option BehaviorId) (g : Generator) :
    Option (Move WorldState Emission) :=
  match world.call? state response g with
  | none => none
  | some (move, states) =>
    match move.outcome with
    | .error error => some ⟨.error error, ⟨state.current, states⟩, move.generator⟩
    | .ok (some (line, stimulus)) =>
      some ⟨.ok (some ⟨stimulus, state.current, line⟩), ⟨state.current, states⟩, move.generator⟩
    | .ok none =>
      if state.current + 1 < world.phases.length then
        next? world ⟨state.current + 1, states⟩ response move.generator
      else some ⟨.ok none, ⟨state.current, states⟩, move.generator⟩
termination_by world.phases.length - state.current

variable {world : World} {vocabulary : Vocabulary} {state : WorldState}
  {response : Option BehaviorId}

theorem WellFormed.call?_eq (h : world.WellFormed vocabulary) (hstate : state.Fits world)
    (hresponse : ∀ behavior ∈ response, behavior < vocabulary.behaviorCount) {phase : Phase}
    {phaseState : PhaseState} (hphase : world.phases[state.current]? = some phase)
    (hphaseState : state.states[state.current]? = some phaseState) (g : Generator) :
    world.call? state response g = some (phase.next phaseState response g,
      state.states.setIfInBounds state.current (phase.next phaseState response g).state) := by
  have hmem := List.mem_of_getElem? hphase
  rw [← h.vocabulary_eq phase hmem] at hresponse
  have hnext := (h.phase phase hmem).next?_eq
    (hstate.phases _ phase phaseState hphase hphaseState) hresponse g
  have hlt : state.current < state.states.size := (Array.getElem?_eq_some_iff.1 hphaseState).1
  simp only [call?, hphase, hphaseState, hnext, put?_eq hlt, Option.bind_eq_bind, Option.bind_some]
  rfl

/-- A call of a world uses no number that is out of range. -/
theorem WellFormed.next?_eq (h : world.WellFormed vocabulary) (hstate : state.Fits world)
    (hcurrent : state.current < world.phases.length)
    (hresponse : ∀ behavior ∈ response, behavior < vocabulary.behaviorCount) (g : Generator) :
    world.next? state response g = some (world.next state response g) := by
  fun_induction World.next world state response g with
  | case1 state g phase phaseState hphaseState hphase move states error hmove =>
    have hcall : world.call? state response g = some (move, states) :=
      h.call?_eq hstate hresponse hphase hphaseState g
    rw [next?, hcall]
    simp only [hmove]
  | case2 state g phase phaseState hphaseState hphase move states line stimulus hmove =>
    have hcall : world.call? state response g = some (move, states) :=
      h.call?_eq hstate hresponse hphase hphaseState g
    rw [next?, hcall]
    simp only [hmove]
  | case3 state g phase phaseState hphaseState hphase move states hmove hlt ih =>
    have hcall : world.call? state response g = some (move, states) :=
      h.call?_eq hstate hresponse hphase hphaseState g
    rw [next?, hcall]
    simp only [hmove, if_pos hlt]
    have hreachable := hstate.phases _ phase phaseState hphase hphaseState
    exact ih (hstate.set hphase (hreachable.next response g)) hlt
  | case4 state g phase phaseState hphaseState hphase move states hmove hlast =>
    have hcall : world.call? state response g = some (move, states) :=
      h.call?_eq hstate hresponse hphase hphaseState g
    rw [next?, hcall]
    simp only [hmove, if_neg hlast]
  | case5 state g hmissing =>
    have hsize : state.current < state.states.size := hstate.size ▸ hcurrent
    exact (hmissing _ _ (List.getElem?_eq_getElem hcurrent) (Array.getElem?_eq_getElem hsize)).elim

end World

end Conditioning
