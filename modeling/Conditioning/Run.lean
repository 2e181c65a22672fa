import Conditioning.Experiment
import Conditioning.World

/-!
# Runs

A run takes a number of subjects through a world, all with one mechanism.  The
subjects use the same apparatus one after the other, and it is reset after each
of them.  Each subject draws from a stream of its own; the seeds of these
streams are drawn from the generator of the runs before the first subject
starts, and nothing else is.

A phase may never end.  A subject therefore has a budget of steps, and a run
whose subject uses it up is left unfinished, which is neither a result nor an
error of the experiment.
-/

namespace Conditioning

/-- Why there is no result. -/
inductive Halt where
  | error (error : Error)
  /-- The budget of steps is used up. -/
  | unfinished

/-- A run as it is declared. -/
structure Run where
  label : String
  world : World
  /-- The learning rule with its settings. -/
  mechanism : Mechanism Float
  subjects : Nat

/-- What a subject changes: the state of the world and what is learned. -/
structure Apparatus where
  world : WorldState
  learner : Learner Float

/-- A subject in the course of its run. -/
structure Session where
  apparatus : Apparatus
  generator : Generator
  steps : Nat
  last : Option HistoryEntry
  record : Record

/-- What a step makes of a session. -/
inductive Progress where
  | finished (session : Session)
  /-- The subject responded to a stimulus. -/
  | ongoing (session : Session)

namespace Run

variable (run : Run)

/-- The apparatus as it is set up. -/
def setUp : Apparatus := ⟨run.world.start, run.mechanism.start⟩

/-- The apparatus put back for another subject. -/
def reset (apparatus : Apparatus) : Apparatus :=
  ⟨World.reset apparatus.world, run.mechanism.reset apparatus.learner⟩

/-- The beginning of a session. -/
def begin (apparatus : Apparatus) (seed : UInt64) : Session where
  apparatus := apparatus
  generator := Generator.ofSeed seed
  steps := 0
  last := none
  record :=
    ((Record.empty run.mechanism.vocabulary).noteAll run.mechanism apparatus.learner 0).notePhase 0 0

/-- Note a step: what was learned about the step before, then what was shown and done. -/
def noteStep (record : Record) (step : Nat) (before : Option (Stimulus × BehaviorId))
    (learner : Learner Float) (phase : Nat) (entry : HistoryEntry) : Record :=
  let updated := match before with
    | some (stimulus, response) =>
      record.noteUpdated run.mechanism learner step response stimulus.elements
    | none => record
  let shown := updated.noteShown run.mechanism learner step entry.response entry.stimulus.elements
  (shown.noteEntry entry).notePhase phase step

/-- The session after the subject was shown something. -/
def respond (session : Session) (emission : Emission) (world : WorldState) (g : Generator) :
    Session :=
  let before := session.apparatus.learner.previous
  let draw := g.unit
  let answer := run.mechanism.step session.apparatus.learner emission.stimulus draw.1
  let entry : HistoryEntry := ⟨emission.stimulus, answer.1⟩
  { apparatus := ⟨world, answer.2⟩
    generator := draw.2
    steps := session.steps + 1
    last := some entry
    record :=
      run.noteStep session.record (session.steps + 1) before answer.2 emission.phase entry }

/-- The session after the world had nothing more to show. -/
def leave (session : Session) (world : WorldState) (g : Generator) : Session :=
  { session with apparatus := { session.apparatus with world }, generator := g }

/-- One step of a session. -/
def step (session : Session) : Except Error Progress :=
  let response := session.last.map HistoryEntry.response
  let move := run.world.next session.apparatus.world response session.generator
  match move.outcome with
  | .error error => .error error
  | .ok none => .ok (.finished (leave session move.state move.generator))
  | .ok (some emission) =>
    .ok (.ongoing (run.respond session emission move.state move.generator))

/-- Close the record of a session that is over. -/
def conclude (session : Session) : Record :=
  (session.record.noteAll run.mechanism session.apparatus.learner session.steps).close
    session.steps session.last

/-- Go on until the world is over, for as many steps as the budget allows. -/
def proceed (session : Session) : Nat → Except Halt Session
  | 0 => .error .unfinished
  | budget + 1 =>
    match run.step session with
    | .error error => .error (.error error)
    | .ok (.finished session) => .ok session
    | .ok (.ongoing session) => proceed session budget

/-- Take one subject through the world, and put the apparatus back. -/
def subject (budget : Nat) (apparatus : Apparatus) (seed : UInt64) :
    Except Halt (Record × Apparatus) :=
  match run.proceed (run.begin apparatus seed) budget with
  | .error halt => .error halt
  | .ok session => .ok (run.conclude session, run.reset session.apparatus)

/-- Take subjects through the world one after the other. -/
def subjectsFrom (budget : Nat) (apparatus : Apparatus) : List UInt64 → Except Halt (List Record)
  | [] => .ok []
  | seed :: seeds =>
    match run.subject budget apparatus seed with
    | .error halt => .error halt
    | .ok (record, apparatus) =>
      match subjectsFrom budget apparatus seeds with
      | .error halt => .error halt
      | .ok records => .ok (record :: records)

/-- The record of the run of some subjects. -/
def toRecord (subjects : List Record) : RunRecord where
  vocabulary := run.mechanism.vocabulary
  hasSalience := run.mechanism.hasSalience
  response := run.mechanism.config.response
  phaseLabels := run.world.phases.map Phase.label
  subjects := subjects

/-- Simulate every subject. -/
def simulate (budget : Nat) (g : Generator) : Except Halt (RunRecord × Generator) :=
  let seeds := g.splits run.subjects
  match run.subjectsFrom budget run.setUp seeds.1 with
  | .error halt => .error halt
  | .ok records => .ok (run.toRecord records, seeds.2)

end Run

/-- Simulate runs in order, all from one generator. -/
def simulateAll (budget : Nat) (experiment : Experiment) (g : Generator) :
    List Run → Except Halt Experiment
  | [] => .ok experiment
  | run :: runs =>
    match run.simulate budget g with
    | .error halt => .error halt
    | .ok (record, g) => simulateAll budget (experiment.put run.label record) g runs

end Conditioning
