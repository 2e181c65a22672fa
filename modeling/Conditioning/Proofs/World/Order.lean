import Conditioning.Proofs.Calls
import Conditioning.Proofs.Phase.Compiled
import Conditioning.Proofs.Phase.Ending
import Conditioning.Proofs.World.Reachable
import Mathlib.Data.List.Chain

/-!
# The order of phases

A world goes through its phases one by one.  While it runs, the phases before
the current one are over and those after it have not begun (`World.Ordered`).
A phase that has not begun shows something when it is first called, because its
end condition asks for at least one occurrence.  So a call leaves at most one
phase behind, and the phases of what is shown climb from zero one by one
(`Climb`).

When a call shows nothing the last phase is over, and with it all of them; then
no later call shows anything (`World.phases_in_order`).
-/

namespace Conditioning

/-! ## Climbing lists -/

/-- The list begins with zero and ends with `top`, and each number is the one before it or one
more. -/
inductive Climb : List Nat → Nat → Prop where
  | start : Climb [0] 0
  | stay {shown : List Nat} {top : Nat} (h : Climb shown top) : Climb (shown ++ [top]) top
  | rise {shown : List Nat} {top : Nat} (h : Climb shown top) :
      Climb (shown ++ [top + 1]) (top + 1)

namespace Climb

variable {shown : List Nat} {top : Nat}

theorem head?_eq (h : Climb shown top) : shown.head? = some 0 := by
  induction h with
  | start => rfl
  | stay _ ih => simp [ih]
  | rise _ ih => simp [ih]

theorem getLast?_eq (h : Climb shown top) : shown.getLast? = some top := by
  cases h with
  | start => rfl
  | stay => simp
  | rise => simp

theorem isChain (h : Climb shown top) :
    shown.IsChain fun before after => after = before ∨ after = before + 1 := by
  induction h with
  | start => exact .singleton 0
  | stay h ih =>
    refine ih.append (.singleton _) ?_
    intro before hbefore after hafter
    rw [h.getLast?_eq] at hbefore
    cases hbefore
    cases hafter
    exact .inl rfl
  | rise h ih =>
    refine ih.append (.singleton _) ?_
    intro before hbefore after hafter
    rw [h.getLast?_eq] at hbefore
    cases hbefore
    cases hafter
    exact .inr rfl

/-- A climb leaves no number out. -/
theorem mem_of_le (h : Climb shown top) {i : Nat} (hi : i ≤ top) : i ∈ shown := by
  induction h with
  | start =>
    cases Nat.le_zero.1 hi
    exact List.mem_cons_self
  | stay _ ih => exact List.mem_append_left _ (ih hi)
  | rise _ ih =>
    rcases Nat.le_succ_iff.1 hi with hle | rfl
    · exact List.mem_append_left _ (ih hle)
    · exact List.mem_append_right _ List.mem_cons_self

end Climb

namespace World

variable {world : World} {state : WorldState}

/-! ## The cases of a call -/

section

variable {phase : Phase} {phaseState : PhaseState} {response : Option BehaviorId} {g : Generator}

theorem next_of_error (hphase : world.phases[state.current]? = some phase)
    (hstate : state.states[state.current]? = some phaseState) {error : Error}
    (hmove : (phase.next phaseState response g).outcome = .error error) :
    world.next state response g =
      ⟨.error error,
        ⟨state.current, state.states.setIfInBounds state.current
          (phase.next phaseState response g).state⟩,
        (phase.next phaseState response g).generator⟩ := by
  rw [World.next]
  simp only [hphase, hstate, hmove]

theorem next_of_shown (hphase : world.phases[state.current]? = some phase)
    (hstate : state.states[state.current]? = some phaseState) {line : Nat} {stimulus : Stimulus}
    (hmove : (phase.next phaseState response g).outcome = .ok (some (line, stimulus))) :
    world.next state response g =
      ⟨.ok (some ⟨stimulus, state.current, line⟩),
        ⟨state.current, state.states.setIfInBounds state.current
          (phase.next phaseState response g).state⟩,
        (phase.next phaseState response g).generator⟩ := by
  rw [World.next]
  simp only [hphase, hstate, hmove]

theorem next_of_last (hphase : world.phases[state.current]? = some phase)
    (hstate : state.states[state.current]? = some phaseState)
    (hmove : (phase.next phaseState response g).outcome = .ok none)
    (hlast : ¬state.current + 1 < world.phases.length) :
    world.next state response g =
      ⟨.ok none,
        ⟨state.current, state.states.setIfInBounds state.current
          (phase.next phaseState response g).state⟩,
        (phase.next phaseState response g).generator⟩ := by
  rw [World.next]
  simp only [hphase, hstate, hmove, if_neg hlast]

theorem next_of_advance (hphase : world.phases[state.current]? = some phase)
    (hstate : state.states[state.current]? = some phaseState)
    (hmove : (phase.next phaseState response g).outcome = .ok none)
    (hlt : state.current + 1 < world.phases.length) :
    world.next state response g =
      world.next
        ⟨state.current + 1, state.states.setIfInBounds state.current
          (phase.next phaseState response g).state⟩
        response (phase.next phaseState response g).generator := by
  rw [World.next]
  simp only [hphase, hstate, hmove, if_pos hlt]

end

/-! ## Before and after the current phase -/

/-- The phases before the current one are over, and those after it have not begun. -/
structure Ordered (world : World) (state : WorldState) : Prop where
  size : state.states.size = world.phases.length
  current_lt : state.current < world.phases.length
  earlier : ∀ (i : Nat) (phase : Phase), i < state.current → world.phases[i]? = some phase →
    ∃ phaseState, state.states[i]? = some phaseState ∧ phase.isOver phaseState = true
  later : ∀ (i : Nat) (phase : Phase), state.current < i → world.phases[i]? = some phase →
    state.states[i]? = some (PhaseState.start phase)

namespace Ordered

theorem start (h : world.phases ≠ []) : world.Ordered world.start := by
  refine ⟨by simp [World.start], List.length_pos_iff.2 h, ?_, ?_⟩
  · intro i phase hi
    cases hi
  · intro i phase _ hphase
    simp [World.start, hphase]

/-- The current phase and its state. -/
theorem exists_current (h : world.Ordered state) :
    ∃ phase phaseState, world.phases[state.current]? = some phase ∧
      state.states[state.current]? = some phaseState :=
  have hlt : state.current < state.states.size := h.size ▸ h.current_lt
  ⟨_, _, List.getElem?_eq_getElem h.current_lt, Array.getElem?_eq_getElem hlt⟩

theorem update (h : world.Ordered state) (phaseState : PhaseState) :
    world.Ordered ⟨state.current, state.states.setIfInBounds state.current phaseState⟩ := by
  refine ⟨by simpa using h.size, h.current_lt, ?_, ?_⟩
  · intro i phase hi hphase
    rw [Array.getElem?_setIfInBounds_ne (Nat.ne_of_gt hi)]
    exact h.earlier i phase hi hphase
  · intro i phase hi hphase
    rw [Array.getElem?_setIfInBounds_ne (Nat.ne_of_lt hi)]
    exact h.later i phase hi hphase

/-- The current phase may be left once it is over. -/
theorem advance (h : world.Ordered state) {phase : Phase} {phaseState : PhaseState}
    (hphase : world.phases[state.current]? = some phase)
    (hstate : state.states[state.current]? = some phaseState)
    (hover : phase.isOver phaseState = true) (hlt : state.current + 1 < world.phases.length) :
    world.Ordered ⟨state.current + 1, state.states⟩ := by
  refine ⟨h.size, hlt, ?_, ?_⟩
  · intro i phase' hi hphase'
    rcases Nat.lt_succ_iff_lt_or_eq.1 hi with hi | rfl
    · exact h.earlier i phase' hi hphase'
    · rw [hphase] at hphase'
      cases hphase'
      exact ⟨phaseState, hstate, hover⟩
  · intro i phase' hi hphase'
    exact h.later i phase' (Nat.lt_of_succ_lt hi) hphase'

end Ordered

/-! ## One call -/

/-- Either nothing was called yet, or the phases shown climb to the current one. -/
def Begun (world : World) (state : WorldState) (shown : List Nat) : Prop :=
  (state = world.start ∧ shown = []) ∨ Climb shown state.current

/-- The last phase is over. -/
structure Finished (world : World) (state : WorldState) : Prop extends world.Ordered state where
  last : ¬state.current + 1 < world.phases.length
  isOver : ∃ phase phaseState, world.phases[state.current]? = some phase ∧
    state.states[state.current]? = some phaseState ∧ phase.isOver phaseState = true

/-- The phases of what a move shows. -/
def shownPhases (move : Move WorldState Emission) : List Nat :=
  move.shown.toList.map Emission.phase

/-- A world that was not called yet shows its first phase. -/
theorem next_start (hthreshold : ∀ phase ∈ world.phases, 0 < phase.ending.threshold)
    {phase : Phase} {phaseState : PhaseState}
    (hphase : world.phases[world.start.current]? = some phase)
    (hstate : world.start.states[world.start.current]? = some phaseState)
    (response : Option BehaviorId) (g : Generator) :
    (phase.next phaseState response g).outcome = .ok (some (0, phase.stimulusAt 0)) := by
  have hphase : world.phases[0]? = some phase := hphase
  have hstarted : PhaseState.start phase = phaseState := by
    simpa [start, hphase] using hstate
  rw [← hstarted]
  exact Phase.next_start (hthreshold phase (List.mem_of_getElem? hphase)) response g

theorem Begun.climb {shown : List Nat} (h : world.Begun state shown) (hne : state ≠ world.start) :
    Climb shown state.current :=
  h.resolve_left fun hstart => hne hstart.1

/-- A call keeps the order, and leaves at most one phase behind.  If it shows nothing, the world
is finished. -/
theorem Ordered.next (h : world.Ordered state)
    (hthreshold : ∀ phase ∈ world.phases, 0 < phase.ending.threshold) {shown : List Nat}
    (hbegun : world.Begun state shown) (response : Option BehaviorId) (g : Generator) :
    let move := world.next state response g
    world.Ordered move.state ∧
      (state.current ≤ move.state.current ∧ move.state.current ≤ state.current + 1) ∧
      world.Begun move.state (shown ++ shownPhases move) ∧
      (move.outcome = .ok none → world.Finished move.state ∧ Climb shown move.state.current) := by
  obtain ⟨phase, phaseState, hphase, hstate⟩ := h.exists_current
  have hupdate := h.update (phase.next phaseState response g).state
  have hlt : state.current < state.states.size := h.size ▸ h.current_lt
  -- a world that was not called yet can only show its first phase
  have hclimb (hne : (phase.next phaseState response g).outcome ≠
      .ok (some (0, phase.stimulusAt 0))) : Climb shown state.current := by
    refine hbegun.climb fun hstart => hne ?_
    subst hstart
    exact next_start hthreshold hphase hstate response g
  cases hmove : (phase.next phaseState response g).outcome with
  | error error =>
    have hclimb := hclimb (by rw [hmove]; simp)
    rw [next_of_error hphase hstate hmove]
    refine ⟨hupdate, ⟨Nat.le_refl _, Nat.le_succ _⟩, .inr ?_, fun he => by cases he⟩
    simpa [shownPhases, Move.shown] using hclimb
  | ok emission =>
    cases emission with
    | some emission =>
      obtain ⟨line, stimulus⟩ := emission
      rw [next_of_shown hphase hstate hmove]
      refine ⟨hupdate, ⟨Nat.le_refl _, Nat.le_succ _⟩, .inr ?_, fun he => by cases he⟩
      rcases hbegun with ⟨rfl, rfl⟩ | hclimb
      · exact .start
      · exact hclimb.stay
    | none =>
      have hclimb := hclimb (by rw [hmove]; simp)
      have hover := Phase.isOver_of_next_eq_none hmove
      have hset : (state.states.setIfInBounds state.current
          (phase.next phaseState response g).state)[state.current]? =
          some (phase.next phaseState response g).state := by
        simp [hlt]
      by_cases hmore : state.current + 1 < world.phases.length
      · -- the next phase has not begun, so it shows something
        have hnext := hupdate.advance hphase hset hover hmore
        have hfollowing := List.getElem?_eq_getElem hmore
        have hfresh := h.later _ _ (Nat.lt_succ_self state.current) hfollowing
        have hfresh' : (state.states.setIfInBounds state.current
            (phase.next phaseState response g).state)[state.current + 1]? =
            some (PhaseState.start world.phases[state.current + 1]) := by
          rw [Array.getElem?_setIfInBounds_ne (Nat.ne_of_lt (Nat.lt_succ_self _))]
          exact hfresh
        have hshown := Phase.next_start (hthreshold _ (List.getElem_mem hmore)) response
          (phase.next phaseState response g).generator
        rw [next_of_advance hphase hstate hmove hmore,
          next_of_shown hfollowing hfresh' hshown]
        exact ⟨hnext.update _, ⟨Nat.le_succ _, Nat.le_refl _⟩, .inr hclimb.rise,
          fun he => by cases he⟩
      · rw [next_of_last hphase hstate hmove hmore]
        refine ⟨hupdate, ⟨Nat.le_refl _, Nat.le_succ _⟩, .inr ?_, fun _ => ⟨?_, hclimb⟩⟩
        · simpa [shownPhases, Move.shown] using hclimb
        · exact ⟨hupdate, hmore, phase, _, hphase, hset, hover⟩

/-- A finished world stays finished, and shows nothing more. -/
theorem Finished.next (h : world.Finished state) (response : Option BehaviorId) (g : Generator) :
    world.Finished (world.next state response g).state ∧
      (world.next state response g).shown = none := by
  obtain ⟨hordered, hlast, phase, phaseState, hphase, hstate, hover⟩ := h
  have hlt : state.current < state.states.size := hordered.size ▸ hordered.current_lt
  obtain ⟨hover', hsilent⟩ := Phase.next_of_isOver hover response g
  have hfinished : world.Finished ⟨state.current, state.states.setIfInBounds state.current
      (phase.next phaseState response g).state⟩ :=
    ⟨hordered.update _, hlast, phase, _, hphase, by simp [hlt], hover'⟩
  cases hmove : (phase.next phaseState response g).outcome with
  | error error =>
    rw [next_of_error hphase hstate hmove]
    exact ⟨hfinished, rfl⟩
  | ok emission =>
    cases emission with
    | some emission => exact absurd hmove (hsilent emission)
    | none =>
      rw [next_of_last hphase hstate hmove hlast]
      exact ⟨hfinished, rfl⟩

theorem Finished.emissions_eq_nil (h : world.Finished state) (calls : List Call) :
    emissions world.next state calls = [] := by
  induction calls generalizing state with
  | nil => rfl
  | cons call calls ih =>
    obtain ⟨hnext, hshown⟩ := h.next call.response call.generator
    simp only [emissions, hshown, ih hnext, Option.toList_none, List.append_nil]

/-- In a finished world every phase is over. -/
theorem Finished.all_over (h : world.Finished state) {i : Nat} {phase : Phase}
    (hphase : world.phases[i]? = some phase) :
    i ≤ state.current ∧
      ∃ phaseState, state.states[i]? = some phaseState ∧ phase.isOver phaseState = true := by
  obtain ⟨hordered, hlast, current, currentState, hcurrent, hstate, hover⟩ := h
  have hi : i < world.phases.length := (List.getElem?_eq_some_iff.1 hphase).1
  have hle : i ≤ state.current := by omega
  refine ⟨hle, ?_⟩
  rcases Nat.lt_or_eq_of_le hle with hlt | rfl
  · exact hordered.earlier i phase hlt hphase
  · rw [hcurrent] at hphase
    cases hphase
    exact ⟨currentState, hstate, hover⟩

/-! ## Runs -/

theorem ofPhases_eq_ok {phases : List Phase} (h : ofPhases phases = .ok world) :
    world.phases = phases ∧ phases ≠ [] := by
  unfold ofPhases at h
  split at h
  · cases h
  · cases h
    exact ⟨rfl, fun he => by simp_all⟩

/-- A world of compiled phases shows them in order, without leaving one out.  A call leaves at
most one phase behind, and if it shows nothing, every phase was shown, has reached its threshold,
and nothing is shown any more. -/
theorem phases_in_order {phases : List Phase}
    (hcompiled : ∀ phase ∈ phases, ∃ (text : PhaseText) (vocabulary : Vocabulary),
      text.compile vocabulary = .ok phase)
    (hworld : ofPhases phases = .ok world) (hfresh : world.Fresh state) (calls : List Call) :
    let now := stateAfter world.next state calls
    let shown := (emissions world.next state calls).map Emission.phase
    (∀ i, shown.head? = some i → i = 0) ∧
      (shown.IsChain fun before after => after = before ∨ after = before + 1) ∧
      ∀ (response : Option BehaviorId) (g : Generator),
        let move := world.next now response g
        (now.current ≤ move.state.current ∧ move.state.current ≤ now.current + 1) ∧
          (move.outcome = .ok none →
            (∀ (i : Nat) (phase : Phase), world.phases[i]? = some phase →
              i ∈ shown ∧ ∃ phaseState, move.state.states[i]? = some phaseState ∧
                phase.ending.threshold ≤ phaseState.tally.get phase.ending.key) ∧
            ∀ later, emissions world.next move.state later = []) := by
  obtain ⟨hphases, hne⟩ := ofPhases_eq_ok hworld
  have hthreshold : ∀ phase ∈ world.phases, 0 < phase.ending.threshold := by
    intro phase hphase
    obtain ⟨text, vocabulary, hcompile⟩ := hcompiled phase (hphases ▸ hphase)
    exact PhaseText.threshold_pos_of_compile hcompile
  rw [hfresh.eq_start]
  have hstart : world.Ordered world.start ∧ world.Begun world.start [] :=
    ⟨.start (hphases ▸ hne), .inl ⟨rfl, rfl⟩⟩
  -- what every call keeps
  obtain ⟨hordered, hbegun⟩ := invariant_of_calls world.next
    (P := fun state shown => world.Ordered state ∧ world.Begun state (shown.map Emission.phase))
    hstart
    (fun state shown ⟨hordered, hbegun⟩ response g => by
      obtain ⟨hnext, -, hbegun', -⟩ := hordered.next hthreshold hbegun response g
      refine ⟨hnext, ?_⟩
      rw [List.map_append]
      exact hbegun')
    calls
  refine ⟨?_, ?_, ?_⟩
  · intro i hi
    rcases hbegun with ⟨-, hnone⟩ | hclimb
    · rw [hnone] at hi
      cases hi
    · rw [hclimb.head?_eq] at hi
      exact (Option.some.inj hi).symm
  · rcases hbegun with ⟨-, hnone⟩ | hclimb
    · rw [hnone]
      exact .nil
    · exact hclimb.isChain
  · intro response g
    obtain ⟨-, hforward, -, hnone⟩ := hordered.next hthreshold hbegun response g
    refine ⟨hforward, fun hsilent => ?_⟩
    obtain ⟨hfinished, hclimb⟩ := hnone hsilent
    refine ⟨?_, hfinished.emissions_eq_nil⟩
    intro i phase hphase
    obtain ⟨hle, phaseState, hstate, hover⟩ := hfinished.all_over hphase
    exact ⟨hclimb.mem_of_le hle, phaseState, hstate, of_decide_eq_true hover⟩

/-- Two trials, one after the other. -/
def trials : World := ⟨[PhaseText.trialPhase, PhaseText.trialPhase]⟩

/-- The calls for a subject that presses every time. -/
def presses (n : Nat) : List Call := ⟨none, ⟨1⟩⟩ :: List.replicate n ⟨some 1, ⟨1⟩⟩

/-- A subject that presses every time goes through two trials. -/
theorem phases_in_order_trials :
    let now := stateAfter trials.next trials.start (presses 11)
    let shown := (emissions trials.next trials.start (presses 11)).map Emission.phase
    (∀ phase ∈ [PhaseText.trialPhase, PhaseText.trialPhase],
      ∃ (text : PhaseText) (vocabulary : Vocabulary), text.compile vocabulary = .ok phase) ∧
    ofPhases [PhaseText.trialPhase, PhaseText.trialPhase] = .ok trials ∧
    trials.Fresh trials.start ∧
    shown = [0, 0, 0, 0, 0, 0, 1, 1, 1, 1, 1, 1] ∧
    (shown.IsChain fun before after => after = before ∨ after = before + 1) ∧
    (trials.next now (some 1) ⟨1⟩).outcome = .ok none ∧
    ∀ later, emissions trials.next (trials.next now (some 1) ⟨1⟩).state later = [] := by
  intro now shown
  have hcompiled : ∀ phase ∈ [PhaseText.trialPhase, PhaseText.trialPhase],
      ∃ (text : PhaseText) (vocabulary : Vocabulary), text.compile vocabulary = .ok phase := by
    intro phase hphase
    have he : phase = PhaseText.trialPhase := by simpa using hphase
    exact ⟨PhaseText.trial, PhaseText.trialVocabulary, he ▸ PhaseText.compile_trial⟩
  have hworld : ofPhases [PhaseText.trialPhase, PhaseText.trialPhase] = .ok trials := rfl
  have hnone : (trials.next now (some 1) ⟨1⟩).outcome = .ok none :=
    eq_ok_of_toOption_eq_some (by decide +kernel)
  obtain ⟨-, hchain, hcall⟩ := phases_in_order hcompiled hworld .start (presses 11)
  exact ⟨hcompiled, hworld, .start, by decide +kernel, hchain, hnone,
    ((hcall (some 1) ⟨1⟩).2 hnone).2⟩

end World

end Conditioning
