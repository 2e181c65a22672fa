import Conditioning.Proofs.Run.Steps
import Conditioning.Proofs.Run.WellFormed

/-!
# Records whose tables agree

A record keeps its points, its phases, its history and its last step apart, and
each of them is written on its own.  A query reads them side by side.  In the
record of a subject they agree (`Record.Aligned`): there is one phase for the
start and one for each entry of the history, the phase of a step is the one that
showed the stimulus of that step, every series has a value for each step, and
the record is closed at its last entry.

There is an entry at all because a compiled phase asks for at least one
occurrence, and so shows something before it is over.
-/

namespace Conditioning

/-! ## What showed a stimulus -/

/-- A call that shows something shows the line that is current after it. -/
theorem Phase.shown_of_next {phase : Phase} {state : PhaseState} {response : Option BehaviorId}
    {g : Generator} {line : Nat} {stimulus : Stimulus}
    (hshown : (phase.next state response g).outcome = .ok (some (line, stimulus))) :
    line = (phase.next state response g).state.current ∧ stimulus = phase.stimulusAt line := by
  have hpresent {before : PhaseState} {g' : Generator}
      (h : (phase.present before response g').outcome = .ok (some (line, stimulus))) :
      line = before.current ∧ stimulus = phase.stimulusAt line := by
    obtain ⟨-, e⟩ | ⟨-, e⟩ := phase.present_cases before response g'
    · rw [e] at h
      cases h
    · rw [e] at h
      cases h
      exact ⟨rfl, rfl⟩
  obtain ⟨-, e⟩ | ⟨-, g', -, e⟩ | ⟨-, target, g', -, e⟩ := phase.next_cases state response g
  · rw [e] at hshown ⊢
    rw [present_current]
    exact hpresent hshown
  · rw [e] at hshown
    cases hshown
  · rw [e] at hshown ⊢
    rw [present_current]
    exact hpresent hshown

/-- A phase shows the stimulus of one of its lines. -/
theorem Phase.WellFormed.exists_line_of_next {phase : Phase} (h : phase.WellFormed)
    {state : PhaseState} (hreachable : phase.Reachable state) {response : Option BehaviorId}
    {g : Generator} {i : Nat} {stimulus : Stimulus}
    (hshown : (phase.next state response g).outcome = .ok (some (i, stimulus))) :
    ∃ line, phase.lines[i]? = some line ∧ line.stimulus = stimulus := by
  obtain ⟨hcurrent, hstimulus⟩ := Phase.shown_of_next hshown
  obtain ⟨line, -, hline⟩ :=
    Phase.exists_line_of_lt (h.current_next_lt (hreachable.current_lt h) response g)
  rw [← hcurrent] at hline
  refine ⟨line, hline, ?_⟩
  rw [hstimulus, Phase.stimulusAt, hline]

/-- The phase of the emission, called in the state that it has in the world, showed the line of the
emission with its stimulus. -/
def World.Emits (world : World) (state : WorldState) (response : Option BehaviorId)
    (emission : Emission) : Prop :=
  ∃ phase phaseState g line, world.phases[emission.phase]? = some phase ∧
    state.states[emission.phase]? = some phaseState ∧
    (phase.next phaseState response g).outcome = .ok (some (emission.line, emission.stimulus)) ∧
    phase.lines[emission.line]? = some line ∧ line.stimulus = emission.stimulus

/-- What a world shows was shown by the phase that it says. -/
theorem World.emits_of_next {world : World} (h : ∀ phase ∈ world.phases, phase.WellFormed)
    {state : WorldState} (hstate : state.Fits world) {response : Option BehaviorId} {g : Generator}
    {emission : Emission} (hshown : (world.next state response g).shown = some emission) :
    world.Emits state response emission := by
  rw [Move.shown_eq_some] at hshown
  fun_induction World.next world state response g with
  | case1 => cases hshown
  | case2 state g phase phaseState hphaseState hphase move states line stimulus hmove =>
    cases hshown
    have hreachable := hstate.phases _ phase phaseState hphase hphaseState
    obtain ⟨l, hline, hstimulus⟩ :=
      (h phase (List.mem_of_getElem? hphase)).exists_line_of_next hreachable hmove
    exact ⟨phase, phaseState, g, l, hphase, hphaseState, hmove, hline, hstimulus⟩
  | case3 state g phase phaseState hphaseState hphase move states hmove hlt ih =>
    have hreachable := hstate.phases _ phase phaseState hphase hphaseState
    obtain ⟨phase', phaseState', g', l, hphase', hphaseState', hrest⟩ :=
      ih (hstate.set hphase (hreachable.next response g)) hshown
    -- the phase that was left is not the one that showed the stimulus
    have hle : state.current + 1 ≤ emission.phase := by
      rw [World.phase_of_next (Move.shown_eq_some.2 hshown)]
      exact World.current_le_next world ⟨state.current + 1, states⟩ response move.generator
    rw [Array.getElem?_setIfInBounds_ne (Nat.ne_of_lt hle)] at hphaseState'
    exact ⟨phase', phaseState', g', l, hphase', hphaseState', hrest⟩
  | case4 => cases hshown
  | case5 => cases hshown

/-! ## Agreement -/

/-- The tables of the record of a subject agree with each other and with what the subject was
shown. -/
structure Record.Aligned (record : Record) (run : Run) (seed : UInt64) : Prop where
  size_pos : 1 ≤ record.history.size
  stepCount_eq : record.stepCount = record.history.size + 1
  lastStep_eq : record.lastStep = some record.history.size
  lastEntry_eq : record.lastEntry = record.history.back?
  phase_start : record.phaseOf? 0 = some 0
  /-- The phase of a step showed the stimulus of the step. -/
  emits : ∀ (k : Nat) (entry : HistoryEntry), record.history[k]? = some entry →
    ∃ subject emission, run.replay run.setUp seed k = some subject ∧
      (run.nextOf subject).shown = some emission ∧
      run.world.Emits subject.apparatus.world subject.response emission ∧
      record.phaseOf? (k + 1) = some emission.phase ∧ entry.stimulus = emission.stimulus
  length_seriesV : ∀ pair, (record.seriesV pair).length = record.history.size + 1
  length_seriesW : ∀ element < run.mechanism.vocabulary.elementCount,
    (record.seriesW element).length =
      if run.mechanism.hasSalience then record.history.size + 1 else 0

namespace Run

variable {run : Run} {apparatus : Apparatus} {seed : UInt64} {budget : Nat} {record : Record}
  {after : Apparatus}

/-- A session remembers the last entry of its history. -/
theorem Took.last_eq {session : Session} (h : run.Took (run.begin apparatus seed) session) :
    session.last = session.record.history.back? := by
  induction h with
  | refl =>
    rw [history_begin]
    rfl
  | step _ hstep ih =>
    obtain ⟨emission, -, rfl⟩ := ongoing_of_step hstep
    rw [history_respond, Array.back?_push]
    exact congrArg (some <| HistoryEntry.mk emission.stimulus ·) (Mechanism.step_fst ..)

theorem lastEntry_of_subject (h : run.subject budget apparatus seed = .ok (record, after)) :
    record.lastEntry = record.history.back? := by
  obtain ⟨last, final, htook, hfinished, rfl, -⟩ := exists_took_of_subject h
  obtain ⟨-, rfl⟩ := finished_of_step hfinished
  rw [history_conclude]
  exact htook.last_eq

/-- A world of phases that ask for something shows something before it is over. -/
theorem history_size_pos (hthreshold : ∀ phase ∈ run.world.phases, 0 < phase.ending.threshold)
    (hne : run.world.phases ≠ [])
    (h : run.subject budget run.setUp seed = .ok (record, after)) : 1 ≤ record.history.size := by
  obtain ⟨calls, last, hover, hshows⟩ := shows_of_subject h
  obtain ⟨hordered, hbegun⟩ := World.ordered_of_calls hthreshold hne calls
  obtain ⟨-, -, -, hsilent⟩ := hordered.next hthreshold hbegun last.response last.generator
  obtain ⟨-, hclimb⟩ := hsilent hover
  have hsize : record.history.size = (emissions run.world.next run.world.start calls).length := by
    have hlength := congrArg List.length hshows.stimuli
    rwa [List.length_map, List.length_map, Array.length_toList] at hlength
  rw [hsize, ← List.length_map (f := Emission.phase)]
  exact List.length_pos_of_mem (hclimb.mem_of_le (Nat.zero_le _))

theorem aligned_of_subject (hphases : ∀ phase ∈ run.world.phases, phase.WellFormed)
    (hthreshold : ∀ phase ∈ run.world.phases, 0 < phase.ending.threshold)
    (hne : run.world.phases ≠ [])
    (h : run.subject budget run.setUp seed = .ok (record, after)) : record.Aligned run seed := by
  have htraces := traces_of_subject rfl h
  obtain ⟨hlast, hdrew⟩ := history_of_subject h
  refine ⟨history_size_pos hthreshold hne h, htraces.stepCount_eq, hlast, lastEntry_of_subject h,
    htraces.phase 0, ?_, ?_, ?_⟩
  · intro k entry hentry
    obtain ⟨before, later, emission, hbefore, hshown, hlater, hstimulus, -⟩ := hdrew k entry hentry
    have hfits := (reachable_of_replay .setUp hbefore).world.fits
    refine ⟨before, emission, hbefore, hshown, World.emits_of_next hphases hfits hshown, ?_,
      hstimulus⟩
    obtain ⟨before', emission', hbefore', hshown', rfl⟩ := exists_next_of_replay hlater
    cases hbefore.symm.trans hbefore'
    cases hshown.symm.trans hshown'
    rw [htraces.phase, hlater, World.phase_of_next hshown]
    rfl
  · intro pair
    rw [record.length_seriesV, htraces.stepCount_eq]
  · intro element helement
    cases hsalience : run.mechanism.hasSalience with
    | false => rw [htraces.noSalience hsalience element]; rfl
    | true => rw [htraces.tells.length_seriesW hsalience helement]; rfl

/-- In the record of every subject of a run of compiled phases all tables agree. -/
theorem aligned_of_simulate {phases : List Phase}
    (hcompiled : ∀ phase ∈ phases, ∃ (text : PhaseText) (vocabulary : Vocabulary),
      text.compile vocabulary = .ok phase)
    (hworld : World.ofPhases phases = .ok run.world) {g g' : Generator} {result : RunRecord}
    (hsimulate : run.simulate budget g = .ok (result, g')) :
    List.Forall₂ (fun seed record => record.Aligned run seed)
      (g.splits run.subjects).1 result.subjects := by
  obtain ⟨hphases, hne⟩ := World.ofPhases_eq_ok hworld
  rw [← hphases] at hcompiled hne
  have hwellFormed : ∀ phase ∈ run.world.phases, phase.WellFormed := by
    intro phase hphase
    obtain ⟨text, vocabulary, hcompile⟩ := hcompiled phase hphase
    exact PhaseText.wellFormed_of_compile hcompile
  refine (forall₂_subjects_of_simulate hsimulate).imp fun seed record hsubject => ?_
  obtain ⟨after, hsubject⟩ := hsubject
  exact aligned_of_subject hwellFormed (PhaseText.threshold_pos_of_compiled hcompiled) hne hsubject

/-- The records of the two pairings agree in their four steps. -/
theorem aligned_of_simulate_pairings :
    (∀ phase ∈ pairings.world.phases, ∃ (text : PhaseText) (vocabulary : Vocabulary),
      text.compile vocabulary = .ok phase) ∧
    World.ofPhases pairings.world.phases = .ok pairings.world ∧
    ∃ result g', pairings.simulate 5 ⟨1⟩ = .ok (result, g') ∧
      result.subjects.map (fun record => record.history.size) = [4, 4] ∧
      List.Forall₂ (fun seed record => record.Aligned pairings seed)
        (Generator.splits 2 ⟨1⟩).1 result.subjects := by
  have hcompiled : ∀ phase ∈ pairings.world.phases,
      ∃ (text : PhaseText) (vocabulary : Vocabulary), text.compile vocabulary = .ok phase := by
    intro phase hphase
    cases List.mem_singleton.1 hphase
    exact ⟨PhaseText.pairing, _, PhaseText.compile_pairingRows rfl⟩
  have hsizes : ((pairings.simulate 5 ⟨1⟩).toOption.map fun x =>
      x.1.subjects.map fun record => record.history.size) = some [4, 4] := by decide +kernel
  obtain ⟨⟨result, g'⟩, hsimulate, hfour⟩ := Option.map_eq_some_iff.1 hsizes
  have hok := eq_ok_of_toOption_eq_some hsimulate
  exact ⟨hcompiled, rfl, result, g', hok, hfour, aligned_of_simulate hcompiled rfl hok⟩

end Run

end Conditioning
