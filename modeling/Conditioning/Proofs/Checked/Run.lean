import Conditioning.Proofs.Checked.Phase
import Conditioning.Proofs.Checked.Record
import Conditioning.Proofs.Run.WellFormed

/-!
# Checked runs

Here a subject calls the checked world, takes checked steps of learning and keeps a
checked record.  On a run that is well-formed, checked simulation gives what the
simulation gives, be it a result or an error (`Run.WellFormed.simulate?_eq`).  Each
step of a session keeps what the next one relies on (`Session.Fits`): the world is
in a state that calls lead to, the learner and the record fit the vocabulary, and
the last response is declared.
-/

namespace Conditioning

namespace Run

variable (run : Run)

/-! ## Sessions -/

/-- The beginning of a session. -/
def begin? (apparatus : Apparatus) (seed : UInt64) : Option Session := do
  let noted ← (Record.empty run.mechanism.vocabulary).noteAll? run.mechanism apparatus.learner 0
  let record ← noted.notePhase? 0 0
  return ⟨apparatus, Generator.ofSeed seed, 0, none, record⟩

/-- Note what was learned about the step before, if there was one. -/
def noteBefore? (record : Record) (step : Nat) (before : Option (Stimulus × BehaviorId))
    (learner : Learner Float) : Option Record :=
  match before with
  | some (stimulus, response) =>
    record.noteUpdated? run.mechanism learner step response stimulus.elements
  | none => some record

/-- Note a step: what was learned about the step before, then what was shown and done. -/
def noteStep? (record : Record) (step : Nat) (before : Option (Stimulus × BehaviorId))
    (learner : Learner Float) (phase : Nat) (entry : HistoryEntry) : Option Record := do
  let updated ← run.noteBefore? record step before learner
  let shown ←
    updated.noteShown? run.mechanism learner step entry.response entry.stimulus.elements
  (shown.noteEntry entry).notePhase? phase step

/-- The session after the subject was shown something. -/
def respond? (session : Session) (emission : Emission) (world : WorldState) (g : Generator) :
    Option Session := do
  let before := session.apparatus.learner.previous
  let draw := g.unit
  let answer ← run.mechanism.step? session.apparatus.learner emission.stimulus draw.1
  let entry : HistoryEntry := ⟨emission.stimulus, answer.1⟩
  let record ← run.noteStep? session.record (session.steps + 1) before answer.2 emission.phase entry
  return ⟨⟨world, answer.2⟩, draw.2, session.steps + 1, some entry, record⟩

/-- One step of a session. -/
def step? (session : Session) : Option (Except Error Progress) := do
  let response := session.last.map HistoryEntry.response
  let move ← run.world.next? session.apparatus.world response session.generator
  match move.outcome with
  | .error error => return .error error
  | .ok none => return .ok (.finished (leave session move.state move.generator))
  | .ok (some emission) =>
    let later ← run.respond? session emission move.state move.generator
    return .ok (.ongoing later)

/-- Close the record of a session that is over. -/
def conclude? (session : Session) : Option Record := do
  let noted ← session.record.noteAll? run.mechanism session.apparatus.learner session.steps
  return noted.close session.steps session.last

/-- Go on until the world is over, for as many steps as the budget allows. -/
def proceed? (session : Session) : Nat → Option (Except Halt Session)
  | 0 => some (.error .unfinished)
  | budget + 1 =>
    match run.step? session with
    | none => none
    | some (.error error) => some (.error (.error error))
    | some (.ok (.finished session)) => some (.ok session)
    | some (.ok (.ongoing session)) => proceed? session budget

/-! ## Subjects -/

/-- Take one subject through the world, and put the apparatus back. -/
def subject? (budget : Nat) (apparatus : Apparatus) (seed : UInt64) :
    Option (Except Halt (Record × Apparatus)) := do
  let first ← run.begin? apparatus seed
  let result ← run.proceed? first budget
  match result with
  | .error halt => return .error halt
  | .ok session =>
    let record ← run.conclude? session
    return .ok (record, run.reset session.apparatus)

/-- Take subjects through the world one after the other. -/
def subjectsFrom? (budget : Nat) (apparatus : Apparatus) :
    List UInt64 → Option (Except Halt (List Record))
  | [] => some (.ok [])
  | seed :: seeds =>
    match run.subject? budget apparatus seed with
    | none => none
    | some (.error halt) => some (.error halt)
    | some (.ok (record, apparatus)) =>
      match subjectsFrom? budget apparatus seeds with
      | none => none
      | some (.error halt) => some (.error halt)
      | some (.ok records) => some (.ok (record :: records))

/-- Simulate every subject. -/
def simulate? (budget : Nat) (g : Generator) : Option (Except Halt (RunRecord × Generator)) := do
  let seeds := g.splits run.subjects
  let result ← run.subjectsFrom? budget run.setUp seeds.1
  match result with
  | .error halt => return .error halt
  | .ok records => return .ok (run.toRecord records, seeds.2)

end Run

/-! ## What a session keeps -/

/-- All that a session holds fits the run. -/
structure Session.Fits (session : Session) (run : Run) : Prop where
  world : run.world.Reachable session.apparatus.world
  learner : session.apparatus.learner.Fits run.mechanism.vocabulary
  response : ∀ behavior ∈ session.last.map HistoryEntry.response,
    behavior < run.mechanism.vocabulary.behaviorCount
  record : session.record.Fits run.mechanism.vocabulary

namespace Run.WellFormed

variable {run : Run} {session : Session}

theorem begin?_eq (h : run.WellFormed) (seed : UInt64) :
    run.begin? run.setUp seed = some (run.begin run.setUp seed) ∧
      (run.begin run.setUp seed).Fits run := by
  have hlearner := Mechanism.fits_start h.config
  obtain ⟨hnoted, hfits⟩ := (Record.fits_empty _).noteAll? 0 hlearner
  refine ⟨?_, .start, hlearner, fun _ h => (Option.not_mem_none _ h).elim, hfits.notePhase 0 0⟩
  rw [begin?, setUp, hnoted, Option.bind_eq_bind, Option.bind_some, Record.notePhase?_eq]
  rfl

theorem noteStep?_eq {record : Record} (hrecord : record.Fits run.mechanism.vocabulary)
    {l later : Learner Float} (hl : l.Fits run.mechanism.vocabulary)
    (hlater : later.Fits run.mechanism.vocabulary) (entry : HistoryEntry)
    (hstimulus : entry.stimulus.Declared run.mechanism.vocabulary)
    (hresponse : entry.response < run.mechanism.vocabulary.behaviorCount) (step phase : Nat) :
    Record.Notes (run.noteStep? record step l.previous later phase entry)
      (run.noteStep record step l.previous later phase entry) run.mechanism.vocabulary := by
  cases hprevious : l.previous with
  | none =>
    obtain ⟨hshown, hfits⟩ := hrecord.noteShown? step hlater hstimulus.lt hresponse
    refine ⟨?_, (hfits.noteEntry entry).notePhase phase step⟩
    rw [noteStep?, noteBefore?, Option.bind_eq_bind, Option.bind_some, hshown]
    exact Record.notePhase?_eq ..
  | some previous =>
    obtain ⟨hbefore, hbehavior⟩ := hl.previous previous.1 previous.2 hprevious
    obtain ⟨hupdated, hrecord⟩ := hrecord.noteUpdated? step hlater hbefore.lt hbehavior
    obtain ⟨hshown, hfits⟩ := hrecord.noteShown? step hlater hstimulus.lt hresponse
    refine ⟨?_, (hfits.noteEntry entry).notePhase phase step⟩
    rw [noteStep?, noteBefore?, hupdated, Option.bind_eq_bind, Option.bind_some, hshown]
    exact Record.notePhase?_eq ..

/-! ## A step of a session -/

theorem respond?_eq (h : run.WellFormed) (hsession : session.Fits run) {emission : Emission}
    (hdeclared : emission.stimulus.Declared run.mechanism.vocabulary) {world : WorldState}
    (hworld : run.world.Reachable world) (g : Generator) :
    run.respond? session emission world g = some (run.respond session emission world g) ∧
      (run.respond session emission world g).Fits run := by
  have hlater := Mechanism.fits_step h.config hsession.learner hdeclared g.unit.1
  have hresponse : (run.mechanism.step session.apparatus.learner emission.stimulus g.unit.1).1 <
      run.mechanism.vocabulary.behaviorCount := Mechanism.respond_lt h.config hdeclared _ _
  obtain ⟨hnoted, hfits⟩ := noteStep?_eq hsession.record hsession.learner hlater
    ⟨emission.stimulus, _⟩ hdeclared hresponse (session.steps + 1) emission.phase
  constructor
  · simp only [respond?, Mechanism.step?_eq h.config hsession.learner hdeclared, hnoted,
      Option.bind_eq_bind, Option.bind_some]
    rfl
  · refine ⟨hworld, hlater, fun behavior hbehavior => ?_, hfits⟩
    cases hbehavior
    exact hresponse

theorem step?_eq (h : run.WellFormed) (hsession : session.Fits run) :
    run.step? session = some (run.step session) := by
  have hnext := h.world.next?_eq hsession.world.fits
    (hsession.world.current_lt h.world.phases_ne_nil) hsession.response session.generator
  rw [step?, step, hnext, Option.bind_eq_bind, Option.bind_some]
  cases hmove : (run.world.next session.apparatus.world (session.last.map HistoryEntry.response)
    session.generator).outcome with
  | error error => rfl
  | ok shown =>
    cases shown with
    | none => rfl
    | some emission =>
      have hdeclared := World.declared_of_next h.world hsession.world.fits hmove
      have hreachable := hsession.world.next (session.last.map HistoryEntry.response)
        session.generator
      simp only [(h.respond?_eq hsession hdeclared hreachable _).1]
      rfl

theorem fits_of_ongoing (h : run.WellFormed) (hsession : session.Fits run) {later : Session}
    (hstep : run.step session = .ok (.ongoing later)) : later.Fits run := by
  obtain ⟨emission, hshown, rfl⟩ := ongoing_of_step hstep
  have hdeclared := World.declared_of_next h.world hsession.world.fits hshown
  exact (h.respond?_eq hsession hdeclared (hsession.world.next _ _) _).2

theorem fits_of_finished (hsession : session.Fits run) {final : Session}
    (hstep : run.step session = .ok (.finished final)) : final.Fits run := by
  obtain ⟨-, rfl⟩ := finished_of_step hstep
  exact ⟨hsession.world.next _ _, hsession.learner, hsession.response, hsession.record⟩

theorem proceed?_eq (h : run.WellFormed) (hsession : session.Fits run) (budget : Nat) :
    run.proceed? session budget = some (run.proceed session budget) ∧
      ∀ final, run.proceed session budget = .ok final → final.Fits run := by
  induction budget generalizing session with
  | zero => exact ⟨rfl, fun final hfinal => by cases hfinal⟩
  | succ budget ih =>
    rw [proceed?, proceed, h.step?_eq hsession]
    cases hstep : run.step session with
    | error error => exact ⟨rfl, fun final hfinal => by cases hfinal⟩
    | ok progress =>
      cases progress with
      | finished final =>
        refine ⟨rfl, fun _ hfinal => ?_⟩
        cases hfinal
        exact fits_of_finished hsession hstep
      | ongoing later => exact ih (h.fits_of_ongoing hsession hstep)

/-! ## Subjects -/

theorem subject?_eq (h : run.WellFormed) (budget : Nat) (seed : UInt64) :
    run.subject? budget run.setUp seed = some (run.subject budget run.setUp seed) := by
  obtain ⟨hbegin, hfirst⟩ := h.begin?_eq seed
  obtain ⟨hproceed, hfits⟩ := h.proceed?_eq hfirst budget
  rw [subject?, subject, hbegin, Option.bind_eq_bind, Option.bind_some, hproceed,
    Option.bind_eq_bind, Option.bind_some]
  cases hresult : run.proceed (run.begin run.setUp seed) budget with
  | error halt => rfl
  | ok final =>
    obtain ⟨-, hlearner, -, hrecord⟩ := hfits final hresult
    simp only [conclude?, (hrecord.noteAll? final.steps hlearner).1]
    rfl

theorem subjectsFrom?_eq (h : run.WellFormed) (budget : Nat) (seeds : List UInt64) :
    run.subjectsFrom? budget run.setUp seeds = some (run.subjectsFrom budget run.setUp seeds) := by
  induction seeds with
  | nil => rfl
  | cons seed seeds ih =>
    rw [subjectsFrom?, subjectsFrom, h.subject?_eq]
    cases hsubject : run.subject budget run.setUp seed with
    | error halt => rfl
    | ok result =>
      obtain ⟨record, after⟩ := result
      -- the next subject finds the apparatus as it was set up
      obtain rfl := after_eq_setUp .setUp hsubject
      simp only [ih]
      cases run.subjectsFrom budget run.setUp seeds <;> rfl

/-- A run uses no number that is out of range. -/
theorem simulate?_eq (h : run.WellFormed) (budget : Nat) (g : Generator) :
    run.simulate? budget g = some (run.simulate budget g) := by
  rw [simulate?, simulate, h.subjectsFrom?_eq, Option.bind_eq_bind, Option.bind_some]
  cases run.subjectsFrom budget run.setUp (g.splits run.subjects).1 <;> rfl

end Run.WellFormed

end Conditioning
