import Conditioning.Proofs.Run.History
import Conditioning.Proofs.Run.Subjects
import Conditioning.Proofs.World.Counting

/-!
# The steps of a record

A record notes for each step the phase that the world was in, and for each step
after the start what was shown and done.  All of it is known from the replay: the
phase of a step is the one that is current after it, and its entry is what the
learner remembers of it (`Run.traces_of_subject`).  So if the replays of two runs
agree for some steps, their records do as well.

A session calls the world once for each step.  What these calls show, in order, is
what the record notes (`Run.shows_of_subject`), and whatever is known of calls of a
world is known of records.
-/

namespace Conditioning

/-! ## Phases of a world -/

/-- No call goes back to an earlier phase. -/
theorem World.current_le_next (world : World) (state : WorldState)
    (response : Option BehaviorId) (g : Generator) :
    state.current ≤ (world.next state response g).state.current := by
  fun_induction World.next world state response g with
  | case1 => exact Nat.le_refl _
  | case2 => exact Nat.le_refl _
  | case3 state g phase phaseState hstate hphase move states hmove hlt ih =>
    exact Nat.le_trans (Nat.le_succ _) ih
  | case4 => exact Nat.le_refl _
  | case5 => exact Nat.le_refl _

/-! ## Records -/

theorem Record.phases_notePhase {record : Record} {step : Nat} (h : record.phases.size = step)
    (phase : Nat) : (record.notePhase phase step).phases = record.phases.push phase := by
  subst h
  refine Array.ext_getElem? fun k => ?_
  simp only [notePhase, Array.getElem?_setIfInBounds, Array.size_append, Array.size_replicate,
    Array.getElem?_append, Array.getElem?_replicate, Array.getElem?_push]
  grind

/-- The record notes what was shown, in order: the phases after the start, and the stimuli. -/
structure Record.Shows (record : Record) (shown : List Emission) : Prop where
  phases : record.phases.toList = 0 :: shown.map Emission.phase
  stimuli : record.history.toList.map HistoryEntry.stimulus = shown.map Emission.stimulus

/-! ## Subjects -/

namespace Subject

/-- The phase that a subject is in. -/
def phase (subject : Subject) : Nat := subject.apparatus.world.current

/-- What a subject was last shown and did, if there was anything. -/
def lastEntry (subject : Subject) : Option HistoryEntry :=
  subject.learner.previous.map fun previous => ⟨previous.1, previous.2⟩

end Subject

namespace Run

variable {run : Run} {apparatus : Apparatus} {seed : UInt64}

theorem exists_next_of_replay {k : Nat} {later : Subject}
    (h : run.replay apparatus seed (k + 1) = some later) :
    ∃ subject emission, run.replay apparatus seed k = some subject ∧
      (run.nextOf subject).shown = some emission ∧
      later = run.act subject emission (run.nextOf subject).state
        (run.nextOf subject).generator := by
  obtain ⟨subject, hsubject, hstep⟩ := Option.bind_eq_some_iff.1 h
  obtain ⟨emission, hshown, rfl⟩ := Option.map_eq_some_iff.1 hstep
  exact ⟨subject, emission, hsubject, hshown, rfl⟩

/-- A subject never goes back to an earlier phase. -/
theorem phase_le_of_replay {j k : Nat} (hle : j ≤ k) {before later : Subject}
    (hbefore : run.replay apparatus seed j = some before)
    (hlater : run.replay apparatus seed k = some later) : before.phase ≤ later.phase := by
  induction hle generalizing later with
  | refl =>
    cases hbefore.symm.trans hlater
    exact Nat.le_refl _
  | step _ ih =>
    obtain ⟨subject, emission, hsubject, -, rfl⟩ := exists_next_of_replay hlater
    exact Nat.le_trans (ih hsubject) (run.world.current_le_next _ _ _)

/-- A subject is in a phase of the world. -/
theorem phase_lt_of_replay (hcurrent : apparatus.world.current < run.world.phases.length) {k : Nat}
    {subject : Subject} (h : run.replay apparatus seed k = some subject) :
    subject.phase < run.world.phases.length := by
  induction k generalizing subject with
  | zero =>
    cases h
    exact hcurrent
  | succ k ih =>
    obtain ⟨before, emission, hbefore, -, rfl⟩ := exists_next_of_replay h
    exact World.current_lt_next (ih hbefore) _ _

/-- An entry is what the learner remembers after its step. -/
theorem Drew.lastEntry_eq {k : Nat} {entry : HistoryEntry} (h : run.Drew apparatus seed k entry) :
    (run.replay apparatus seed (k + 1)).bind Subject.lastEntry = some entry := by
  obtain ⟨before, later, emission, hbefore, hshown, hlater, hstimulus, hresponse⟩ := h
  obtain ⟨subject, emission', hsubject, hshown', rfl⟩ := exists_next_of_replay hlater
  cases hbefore.symm.trans hsubject
  cases hshown.symm.trans hshown'
  rw [hlater, Option.bind_some]
  obtain ⟨stimulus, response⟩ := entry
  cases hstimulus
  cases hresponse
  rfl

/-! ## Phases of a record -/

theorem phases_begin (apparatus : Apparatus) (seed : UInt64) :
    (run.begin apparatus seed).record.phases = #[0] := by
  rw [begin, Record.phases_notePhase (by rw [Record.noteAll_eq]; rfl), Record.noteAll_eq]
  rfl

theorem phases_respond {session : Session} (h : session.record.phases.size = session.steps + 1)
    (emission : Emission) (world : WorldState) (g : Generator) :
    (run.respond session emission world g).record.phases =
      session.record.phases.push emission.phase := by
  simp only [respond, noteStep_eq]
  exact Record.phases_notePhase h emission.phase

theorem phases_conclude (session : Session) :
    (run.conclude session).phases = session.record.phases := by
  rw [conclude, Record.noteAll_eq]
  rfl

theorem Took.size_phases {session : Session} (h : run.Took (run.begin apparatus seed) session) :
    session.record.phases.size = session.steps + 1 :=
  h.tells.stepCount_eq

/-- The phase of a step is the one that is current after it. -/
theorem Took.phaseOf?_eq (hcurrent : apparatus.world.current = 0) {session : Session}
    (h : run.Took (run.begin apparatus seed) session) {k : Nat} (hk : k ≤ session.steps) :
    session.record.phaseOf? k = (run.replay apparatus seed k).map Subject.phase := by
  induction h with
  | refl =>
    cases Nat.le_zero.1 hk
    rw [Record.phaseOf?, phases_begin]
    exact congrArg some hcurrent.symm
  | @step session later h hstep ih =>
    have hlater := (h.step hstep).replay_eq
    rw [steps_of_ongoing hstep] at hk hlater
    obtain ⟨emission, hshown, rfl⟩ := ongoing_of_step hstep
    rw [Record.phaseOf?, phases_respond h.size_phases, Array.getElem?_push, h.size_phases]
    rcases Nat.lt_or_eq_of_le hk with hlt | rfl
    · rw [if_neg (Nat.ne_of_lt hlt)]
      exact ih (Nat.le_of_lt_succ hlt)
    · rw [if_pos rfl, hlater, World.phase_of_next (Move.shown_eq_some.2 hshown)]
      rfl

/-- Saliences that are not kept are never noted. -/
theorem Took.w_eq (hsalience : run.mechanism.hasSalience = false) {session : Session}
    (h : run.Took (run.begin apparatus seed) session) :
    session.record.w = Array.replicate run.mechanism.vocabulary.elementCount [] := by
  induction h with
  | refl =>
    rw [begin, Record.noteAll_eq]
    simp [hsalience, Record.notePhase, Record.empty]
  | step _ hstep ih =>
    obtain ⟨emission, -, rfl⟩ := ongoing_of_step hstep
    simp only [respond, noteStep_eq, hsalience]
    exact ih

end Run

/-! ## Records of subjects -/

/-- What a record says of its steps is known from the replay of the subject. -/
structure Record.Traces (record : Record) (run : Run) (apparatus : Apparatus) (seed : UInt64) :
    Prop where
  isSome_iff : ∀ k, (run.replay apparatus seed k).isSome ↔ k ≤ record.history.size
  phase : ∀ k, record.phaseOf? k = (run.replay apparatus seed k).map Subject.phase
  entry : ∀ k, record.history[k]? = (run.replay apparatus seed (k + 1)).bind Subject.lastEntry
  tells : record.Tells run.mechanism (run.learnerAfter apparatus seed) record.history.size
  noSalience : run.mechanism.hasSalience = false → ∀ element, record.seriesW element = []

namespace Record.Traces

variable {record : Record} {run : Run} {apparatus : Apparatus} {seed : UInt64}

theorem stepCount_eq (h : record.Traces run apparatus seed) :
    record.stepCount = record.history.size + 1 :=
  h.tells.stepCount_eq

theorem learnerAfter_eq_none (h : record.Traces run apparatus seed) (k : Nat)
    (hk : record.history.size < k) : run.learnerAfter apparatus seed k = none := by
  have hnone : run.replay apparatus seed k = none := by
    rw [← Option.not_isSome_iff_eq_none, h.isSome_iff]
    exact Nat.not_le_of_lt hk
  rw [Run.learnerAfter, hnone]
  rfl

theorem weight (h : record.Traces run apparatus seed) {element behavior : Nat}
    (helement : element < run.mechanism.vocabulary.elementCount)
    (hbehavior : behavior < run.mechanism.vocabulary.behaviorCount) (k : Nat) :
    (record.seriesV (run.mechanism.vocabulary.pair element behavior))[k]? =
      (run.replay apparatus seed k).map fun subject =>
        run.mechanism.weight subject.learner element behavior := by
  rw [h.tells.getElem?_seriesV h.learnerAfter_eq_none helement hbehavior, Run.learnerAfter,
    Option.map_map]
  rfl

theorem salience (h : record.Traces run apparatus seed)
    (hsalience : run.mechanism.hasSalience = true) {element : Nat}
    (helement : element < run.mechanism.vocabulary.elementCount) (k : Nat) :
    (record.seriesW element)[k]? =
      (run.replay apparatus seed k).map fun subject => subject.learner.w.read element := by
  rw [h.tells.getElem?_seriesW h.learnerAfter_eq_none hsalience helement, Run.learnerAfter,
    Option.map_map]
  rfl

end Record.Traces

namespace Run

variable {run : Run} {apparatus : Apparatus} {seed : UInt64} {budget : Nat} {record : Record}
  {after : Apparatus}

theorem traces_of_subject (hcurrent : apparatus.world.current = 0)
    (h : run.subject budget apparatus seed = .ok (record, after)) :
    record.Traces run apparatus seed := by
  obtain ⟨n, hlast, hsome, htells⟩ := tells_of_subject h
  obtain ⟨hsize, hdrew⟩ := history_of_subject h
  obtain rfl : n = record.history.size := Option.some.inj (hlast.symm.trans hsize)
  have hnone {k : Nat} (hk : record.history.size < k) : run.replay apparatus seed k = none := by
    rw [← Option.not_isSome_iff_eq_none, hsome]
    exact Nat.not_le_of_lt hk
  obtain ⟨last, final, htook, hfinished, hrecord, -⟩ := exists_took_of_subject h
  obtain ⟨-, rfl⟩ := finished_of_step hfinished
  refine ⟨hsome, fun k => ?_, fun k => ?_, htells, fun hsalience element => ?_⟩
  · rcases Nat.lt_or_ge record.history.size k with hlt | hle
    · have hsize : record.phases.size = record.history.size + 1 := htells.stepCount_eq
      rw [hnone hlt, Record.phaseOf?, Array.getElem?_eq_none (hsize ▸ hlt)]
      rfl
    · rw [hrecord, history_conclude] at hle
      rw [hrecord, Record.phaseOf?, phases_conclude]
      exact htook.phaseOf?_eq hcurrent (htook.history.1 ▸ hle)
  · cases hentry : record.history[k]? with
    | none => rw [hnone (Nat.lt_succ_of_le (Array.getElem?_eq_none_iff.1 hentry)), Option.bind_none]
    | some entry => exact (hdrew k entry hentry).lastEntry_eq.symm
  · have hw : record.w = last.record.w := by
      rw [hrecord, conclude, Record.noteAll_eq]
      simp [hsalience, Record.close, leave]
    have hempty : record.w.getD element [] = [] := by
      rw [hw, htook.w_eq hsalience, Array.getD_eq_getD_getElem?, Array.getElem?_replicate]
      split <;> rfl
    rw [Record.seriesW, hempty]

/-! ## What a record shows -/

/-- A session is a series of calls of the world, and its record notes what they show. -/
theorem Took.shows {session : Session} (h : run.Took (run.begin apparatus seed) session) :
    ∃ calls, session.apparatus.world = stateAfter run.world.next apparatus.world calls ∧
      session.record.Shows (emissions run.world.next apparatus.world calls) := by
  induction h with
  | refl => exact ⟨[], rfl, by rw [phases_begin]; rfl, by rw [history_begin]; rfl⟩
  | @step session later h hstep ih =>
    obtain ⟨calls, hworld, hphases, hstimuli⟩ := ih
    obtain ⟨emission, hshown, rfl⟩ := ongoing_of_step hstep
    have hmove : run.nextOf session.subject =
        run.world.next (stateAfter run.world.next apparatus.world calls) session.subject.response
          session.generator := by
      rw [← hworld]
      rfl
    have hemissions : emissions run.world.next apparatus.world
        (calls ++ [⟨session.subject.response, session.generator⟩]) =
          emissions run.world.next apparatus.world calls ++ [emission] := by
      rw [emissions_append]
      simp [emissions, ← hmove, Move.shown_eq_some.2 hshown]
    refine ⟨calls ++ [⟨session.subject.response, session.generator⟩], ?_, ?_, ?_⟩
    · rw [stateAfter_append]
      exact congrArg Move.state hmove
    · rw [phases_respond h.size_phases, hemissions, Array.toList_push, hphases, List.map_append]
      rfl
    · rw [history_respond, hemissions, Array.toList_push, List.map_append, hstimuli,
        List.map_append]
      rfl

/-- The calls of a subject, and the last one, which finds the world over. -/
theorem shows_of_subject (h : run.subject budget apparatus seed = .ok (record, after)) :
    ∃ (calls : List Call) (last : Call),
      (run.world.next (stateAfter run.world.next apparatus.world calls) last.response
        last.generator).outcome = .ok none ∧
      record.Shows (emissions run.world.next apparatus.world calls) := by
  obtain ⟨last, final, htook, hfinished, rfl, -⟩ := exists_took_of_subject h
  obtain ⟨hover, rfl⟩ := finished_of_step hfinished
  obtain ⟨calls, hworld, hphases, hstimuli⟩ := htook.shows
  refine ⟨calls, ⟨last.subject.response, last.generator⟩, ?_, ?_, ?_⟩
  · rw [← hworld]
    exact hover
  · rw [phases_conclude]
    exact hphases
  · rw [history_conclude]
    exact hstimuli

/-! ## The subjects of a run -/

/-- The records of a run are those of its seeds, in order. -/
theorem forall₂_subjects_of_simulate {g g' : Generator} {result : RunRecord}
    (h : run.simulate budget g = .ok (result, g')) :
    List.Forall₂ (fun seed record => ∃ after, run.subject budget run.setUp seed = .ok (record, after))
      (g.splits run.subjects).1 result.subjects := by
  rw [simulate_eq] at h
  obtain ⟨records, hrecords, he⟩ := map_eq_ok.1 h
  cases he
  refine (mapM_eq_ok.1 hrecords).imp fun seed record halone => ?_
  obtain ⟨⟨_, after⟩, hsubject, rfl⟩ := map_eq_ok.1 halone
  exact ⟨after, hsubject⟩

theorem eq_toRecord_of_simulate {g g' : Generator} {result : RunRecord}
    (h : run.simulate budget g = .ok (result, g')) : result = run.toRecord result.subjects := by
  rw [simulate_eq] at h
  obtain ⟨records, -, he⟩ := map_eq_ok.1 h
  cases he
  rfl

theorem traces_of_simulate {g g' : Generator} {result : RunRecord}
    (h : run.simulate budget g = .ok (result, g')) :
    List.Forall₂ (fun seed record => record.Traces run run.setUp seed)
      (g.splits run.subjects).1 result.subjects :=
  (forall₂_subjects_of_simulate h).imp fun _ _ ⟨_, hsubject⟩ => traces_of_subject rfl hsubject

end Run

end Conditioning
