import Conditioning.Proofs.Phase.Counting
import Conditioning.Proofs.World.Order

/-!
# What the phases of a world have counted

Each phase of a world counts its own exchanges (`World.Counts`).  The response of
an exchange was given to the stimulus before, so for the first exchange of a
phase it was given in the phase before.

A phase that ends with a response is therefore late by one stimulus, and by one
phase: it ends when as many responses as it asks for were given before its
stimuli, the first of them included, and the response to its last stimulus is
not counted (`World.ends_after_stimulus_on_last_response`).  In a world that asks
for one press, and then for another, a subject that presses every time is shown
two stimuli in the first phase and one in the second
(`World.not_exactly_answered`).
-/

namespace Conditioning

namespace World

variable {world : World} {state : WorldState}

/-! ## The exchanges of a phase -/

/-- The exchanges of one phase of a world. -/
def exchangesOf (i : Nat) (past : List (Exchange Emission)) : List (Exchange (Nat × Stimulus)) :=
  (past.filter fun exchange => exchange.shown.phase == i).map fun exchange =>
    ⟨exchange.response, exchange.shown.line, exchange.shown.stimulus⟩

@[simp] theorem exchangesOf_nil (i : Nat) : exchangesOf i [] = [] := rfl

@[simp] theorem exchangesOf_append (i : Nat) (past later : List (Exchange Emission)) :
    exchangesOf i (past ++ later) = exchangesOf i past ++ exchangesOf i later := by
  simp [exchangesOf]

theorem exchangesOf_singleton_self (response : Option BehaviorId) (emission : Emission) :
    exchangesOf emission.phase [⟨response, emission⟩] =
      [⟨response, emission.line, emission.stimulus⟩] := by
  simp [exchangesOf]

theorem exchangesOf_singleton_of_ne {i : Nat} {exchange : Exchange Emission}
    (h : exchange.shown.phase ≠ i) : exchangesOf i [exchange] = [] := by
  simp [exchangesOf, h]

/-! ## The invariant of the counts -/

/-- Each phase has counted its exchanges so far. -/
structure Counts (world : World) (state : WorldState) (past : List (Exchange Emission)) : Prop where
  size : state.states.size = world.phases.length
  phases : ∀ (i : Nat) (phase : Phase) (phaseState : PhaseState), world.phases[i]? = some phase →
    state.states[i]? = some phaseState → phase.Counts phaseState (exchangesOf i past)

namespace Counts

variable {past : List (Exchange Emission)}

theorem start (world : World) : world.Counts world.start [] := by
  refine ⟨by simp [World.start], ?_⟩
  intro i phase phaseState hphase hstate
  have hstarted : phaseState = PhaseState.start phase := by
    simpa [World.start, hphase, eq_comm] using hstate
  rw [hstarted]
  exact .start phase

/-- Whichever phase is current, only the counts matter. -/
theorem of_current (h : world.Counts state past) (current : Nat) :
    world.Counts ⟨current, state.states⟩ past :=
  ⟨h.size, h.phases⟩

/-- A call of one phase counts its exchange there, and leaves the other phases as they are. -/
theorem call (h : world.Counts state past)
    (hkeys : ∀ phase ∈ world.phases, phase.ending.key.IsOf phase)
    {i : Nat} {phase : Phase} {phaseState : PhaseState} (hphase : world.phases[i]? = some phase)
    (hstate : state.states[i]? = some phaseState) {response : Option BehaviorId} {g : Generator}
    {shown : List (Exchange Emission)}
    (hself : exchangesOf i shown = (phase.next phaseState response g).exchanges response)
    (hothers : ∀ j, i ≠ j → exchangesOf j shown = []) :
    world.Counts
      ⟨state.current, state.states.setIfInBounds i (phase.next phaseState response g).state⟩
      (past ++ shown) := by
  refine ⟨by simpa using h.size, ?_⟩
  intro j phase' phaseState' hphase' hstate'
  rw [exchangesOf_append]
  by_cases heq : i = j
  · subst heq
    rw [hphase] at hphase'
    cases hphase'
    have hlt : i < state.states.size := (Array.getElem?_eq_some_iff.1 hstate).1
    have hnew : (phase.next phaseState response g).state = phaseState' := by
      simpa [hlt] using hstate'
    rw [hself, ← hnew]
    exact (h.phases i phase phaseState hphase hstate).next
      (hkeys phase (List.mem_of_getElem? hphase)) response g
  · rw [hothers j heq, List.append_nil]
    rw [Array.getElem?_setIfInBounds_ne heq] at hstate'
    exact h.phases j phase' phaseState' hphase' hstate'

/-- A call that goes through phases which show nothing counts in the one that does. -/
theorem next (h : world.Counts state past)
    (hkeys : ∀ phase ∈ world.phases, phase.ending.key.IsOf phase) (response : Option BehaviorId)
    (g : Generator) :
    world.Counts (world.next state response g).state
      (past ++ (world.next state response g).exchanges response) := by
  -- the current phase fails, or shows something, or is left behind, or is the last one and over,
  -- or there is no such phase
  fun_induction World.next world state response g with
  | case1 state g phase phaseState hstate hphase move states error hmove =>
    rw [Move.exchanges_of_error response rfl]
    refine h.call hkeys hphase hstate ?_ fun _ _ => rfl
    exact (Move.exchanges_of_error response hmove).symm
  | case2 state g phase phaseState hstate hphase move states line stimulus hmove =>
    rw [Move.exchanges_of_some response rfl]
    refine h.call hkeys hphase hstate ?_ fun j hne => exchangesOf_singleton_of_ne hne
    rw [Move.exchanges_of_some response hmove]
    exact exchangesOf_singleton_self response ⟨stimulus, state.current, line⟩
  | case3 state g phase phaseState hstate hphase move states hmove hlt ih =>
    have hcall : world.Counts ⟨state.current, states⟩ (past ++ []) :=
      h.call hkeys hphase hstate (Move.exchanges_of_none response hmove).symm fun _ _ => rfl
    rw [List.append_nil] at hcall
    exact ih (hcall.of_current _)
  | case4 state g phase phaseState hstate hphase move states hmove hlast =>
    rw [Move.exchanges_of_none response rfl]
    exact h.call hkeys hphase hstate (Move.exchanges_of_none response hmove).symm fun _ _ => rfl
  | case5 =>
    rw [Move.exchanges_of_none response rfl, List.append_nil]
    exact h

theorem of_calls (hkeys : ∀ phase ∈ world.phases, phase.ending.key.IsOf phase)
    (calls : List Call) :
    world.Counts (stateAfter world.next world.start calls)
      (exchanges world.next world.start calls) :=
  invariant_of_exchanges world.next (P := world.Counts) (.start world)
    (fun _ _ h response g => h.next hkeys response g) calls

end Counts

/-! ## Leaving a phase -/

/-- What a call shows belongs to the phase that is current after it. -/
theorem phase_of_next {response : Option BehaviorId} {g : Generator} {emission : Emission}
    (h : (world.next state response g).shown = some emission) :
    emission.phase = (world.next state response g).state.current := by
  rw [Move.shown_eq_some] at h
  fun_induction World.next world state response g with
  | case1 => cases h
  | case2 =>
    cases h
    rfl
  | case3 state g phase phaseState hstate hphase move states hmove hlt ih => exact ih h
  | case4 => cases h
  | case5 => cases h

/-- After any calls the phases before the current one are over, and the others have not begun. -/
theorem ordered_of_calls (hthreshold : ∀ phase ∈ world.phases, 0 < phase.ending.threshold)
    (hne : world.phases ≠ []) (calls : List Call) :
    world.Ordered (stateAfter world.next world.start calls) ∧
      world.Begun (stateAfter world.next world.start calls)
        ((emissions world.next world.start calls).map Emission.phase) :=
  invariant_of_calls world.next
    (P := fun state shown => world.Ordered state ∧ world.Begun state (shown.map Emission.phase))
    ⟨.start hne, .inl ⟨rfl, rfl⟩⟩
    (fun state shown ⟨hordered, hbegun⟩ response g => by
      obtain ⟨hnext, -, hbegun', -⟩ := hordered.next hthreshold hbegun response g
      rw [List.map_append]
      exact ⟨hnext, hbegun'⟩)
    calls

/-- A call exhausts a phase if it goes on to a later one or finds that there is none. -/
def Exhausts (world : World) (state : WorldState) (call : Call) (i : Nat) : Prop :=
  let move := world.next state call.response call.generator
  i < move.state.current ∨ move.outcome = .ok none

/-- A phase that was exhausted is over, and the call that exhausted it shows nothing of it. -/
theorem over_of_exhausts (hthreshold : ∀ phase ∈ world.phases, 0 < phase.ending.threshold)
    (hordered : world.Ordered state) {shown : List Nat} (hbegun : world.Begun state shown)
    {call : Call} {i : Nat} (h : world.Exhausts state call i) {phase : Phase}
    (hphase : world.phases[i]? = some phase) :
    let move := world.next state call.response call.generator
    (∃ phaseState, move.state.states[i]? = some phaseState ∧ phase.isOver phaseState = true) ∧
      exchangesOf i (move.exchanges call.response) = [] := by
  intro move
  obtain ⟨hnext, -, -, hnone⟩ := hordered.next hthreshold hbegun call.response call.generator
  rcases h with hlt | hsilent
  · refine ⟨hnext.earlier i phase hlt hphase, ?_⟩
    cases hshown : move.shown with
    | none => simp [Move.exchanges, hshown]
    | some emission =>
      have hcurrent : emission.phase = move.state.current := phase_of_next hshown
      simp only [Move.exchanges, hshown, Option.toList_some, List.map_cons, List.map_nil]
      refine exchangesOf_singleton_of_ne ?_
      show emission.phase ≠ i
      rw [hcurrent]
      exact Nat.ne_of_gt hlt
  · obtain ⟨hfinished, -⟩ := hnone hsilent
    refine ⟨(hfinished.all_over hphase).2, ?_⟩
    rw [Move.exchanges_of_none _ hsilent, exchangesOf_nil]

end World

/-! ## Responses -/

namespace World

variable {world : World} {state : WorldState}

/-- A phase that counts a response ends with the stimulus after the last one that it asks for.
The responses given before its stimuli, the first of them in the phase before, are counted, and
the response to its last stimulus is not. -/
theorem ends_after_stimulus_on_last_response {phases : List Phase}
    (hcompiled : ∀ phase ∈ phases, ∃ (text : PhaseText) (vocabulary : Vocabulary),
      text.compile vocabulary = .ok phase)
    (hworld : ofPhases phases = .ok world) (hfresh : world.Fresh state) (calls : List Call)
    {last : Call} {i : Nat}
    (hexhausts : world.Exhausts (stateAfter world.next state calls) last i)
    {phase : Phase} (hphase : world.phases[i]? = some phase) {b : BehaviorId}
    (hkey : phase.ending.key = .behavior b) :
    let responses :=
      (exchangesOf i (exchanges world.next state calls)).map Exchange.response
    responses.count (some b) = phase.ending.threshold ∧ responses.getLast? = some (some b) := by
  intro responses
  obtain ⟨hphases, hne⟩ := ofPhases_eq_ok hworld
  rw [← hphases] at hcompiled hne
  have hthreshold := PhaseText.threshold_pos_of_compiled hcompiled
  have hkeys := PhaseText.key_of_compiled hcompiled
  obtain rfl := hfresh.eq_start
  -- the last call leaves the phase with the counts that it had
  obtain ⟨hordered, hbegun⟩ := ordered_of_calls hthreshold hne calls
  obtain ⟨⟨phaseState, hstate, hover⟩, hnothing⟩ :=
    over_of_exhausts hthreshold hordered hbegun hexhausts hphase
  have hcounts := ((Counts.of_calls hkeys calls).next hkeys last.response last.generator).phases i
    phase phaseState hphase hstate
  rw [exchangesOf_append, hnothing, List.append_nil] at hcounts
  have hmem := List.mem_of_getElem? hphase
  have hcounting : phase.CountsByOne :=
    Phase.countsByOne_of_behavior hkey (PhaseText.threshold_lt_of_compiled hcompiled phase hmem)
  obtain ⟨htotal, exchange, hlast, hone⟩ := hcounts.exact hcounting (hthreshold phase hmem) hover
  refine ⟨?_, ?_⟩
  · rw [← htotal, hkey, EndKey.total_behavior]
  · have hresponse : exchange.response = some b := by
      by_contra hne
      simp [hkey, EndKey.occurrences, hne] at hone
    simp [responses, hlast, hresponse]

end World

/-! ## A world that asks for presses -/

namespace PhaseText

/-- The vocabulary of `press`, in which there is nothing to do but press. -/
def pressVocabulary : Vocabulary := ⟨["cs"], ["press"]⟩

/-- The conditioned stimulus is shown again and again, until there was a press. -/
def press : PhaseText where
  label := "press"
  ending := "press=1"
  rows := ["CS cs | CS"]

/-- The phase that `press` stands for. -/
def pressPhase : Phase where
  label := "press"
  vocabulary := pressVocabulary
  lines := [⟨"CS", ⟨[0]⟩, [⟨⟨none, none⟩, [⟨1.0, 0⟩]⟩]⟩]
  ending := ⟨.behavior 0, 1⟩

theorem line_press :
    line pressVocabulary ["CS"] "press" "CS" "cs | CS".toList =
      .ok ⟨"CS", ⟨[0]⟩, [⟨⟨none, none⟩, [⟨1.0, 0⟩]⟩]⟩ := by
  have hcut : Text.cut '|' "cs | CS".toList = some ("cs ".toList, " CS".toList) := rfl
  simp only [line, hcut, stimulusNames_cs]
  rfl

theorem compile_press : press.compile pressVocabulary = .ok pressPhase := by
  have hrows : labelled pressVocabulary press.label [] press.rows =
      .ok [("CS", "cs | CS".toList)] := rfl
  have hlines : ([("CS", "cs | CS".toList)].mapM fun row =>
      line pressVocabulary ["CS"] press.label row.1 row.2) = .ok pressPhase.lines :=
    mapM_eq_ok.2 (.cons line_press .nil)
  have hending : endCondition pressVocabulary ["CS"] press.label press.ending =
      .ok pressPhase.ending := rfl
  exact compile_of_read rfl hrows hlines hending

end PhaseText

namespace World

open PhaseText (pressPhase)

/-- A world that asks for a press, and then for another. -/
def pressing : World := ⟨[pressPhase, pressPhase]⟩

/-- A call for a subject that has just pressed. -/
def pressed : Call := ⟨some 0, ⟨1⟩⟩

/-- The calls for a subject that presses every time, as long as there is something to see. -/
def pressingCalls : List Call := [⟨none, ⟨1⟩⟩, pressed, pressed]

theorem pressing_compiled : ∀ phase ∈ [pressPhase, pressPhase],
    ∃ (text : PhaseText) (vocabulary : Vocabulary), text.compile vocabulary = .ok phase := by
  intro phase hphase
  have he : phase = pressPhase := by simpa using hphase
  exact ⟨PhaseText.press, PhaseText.pressVocabulary, he ▸ PhaseText.compile_press⟩

/-- The last call shows nothing, so both phases are exhausted. -/
theorem pressing_exhausts (i : Nat) :
    pressing.Exhausts (stateAfter pressing.next pressing.start pressingCalls) pressed i :=
  .inr (eq_ok_of_toOption_eq_some (by decide +kernel))

/-- Of three stimuli the second phase shows one, after the press that was the answer to the last
stimulus of the first phase. -/
theorem ends_after_stimulus_on_last_response_pressing :
    let past := exchanges pressing.next pressing.start pressingCalls
    ofPhases [pressPhase, pressPhase] = .ok pressing ∧ pressing.Fresh pressing.start ∧
      pressing.Exhausts (stateAfter pressing.next pressing.start pressingCalls) pressed 1 ∧
      past.map (fun exchange => exchange.shown.phase) = [0, 0, 1] ∧
      ((exchangesOf 1 past).map Exchange.response).count (some 0) = 1 ∧
      ((exchangesOf 1 past).map Exchange.response).getLast? = some (some 0) := by
  intro past
  have hphase : pressing.phases[1]? = some pressPhase := rfl
  obtain ⟨hcount, hlast⟩ := ends_after_stimulus_on_last_response pressing_compiled rfl .start
    pressingCalls (pressing_exhausts 1) hphase rfl
  exact ⟨rfl, .start, pressing_exhausts 1, by decide +kernel, hcount, hlast⟩

/-- A phase that counts a response need not end with as many answers to its stimuli as it asks
for: the first phase of `pressing` asks for one press and ends with two. -/
theorem not_exactly_answered :
    ¬∀ (phases : List Phase) (world : World) (state : WorldState),
      (∀ phase ∈ phases, ∃ (text : PhaseText) (vocabulary : Vocabulary),
        text.compile vocabulary = .ok phase) →
      ofPhases phases = .ok world → world.Fresh state →
        ∀ (calls : List Call) (last : Call) (i : Nat),
          world.Exhausts (stateAfter world.next state calls) last i →
            ∀ (phase : Phase) (b : BehaviorId), world.phases[i]? = some phase →
              phase.ending.key = .behavior b →
                ((exchangesOf i (answers world.next state last.response calls)).map
                  Exchange.response).count (some b) = phase.ending.threshold := by
  intro h
  have hexact := h _ pressing _ pressing_compiled rfl .start pressingCalls pressed 0
    (pressing_exhausts 0) pressPhase 0 rfl rfl
  have htwo : ((exchangesOf 0 (answers pressing.next pressing.start pressed.response
      pressingCalls)).map Exchange.response).count (some 0) = 2 := by decide +kernel
  rw [htwo] at hexact
  cases hexact

end World

end Conditioning
