import Conditioning.World
import Conditioning.Proofs.Phase.Reachable

/-!
# What a call does to a world

A call of a world calls its current phase.  If that phase has nothing more to
show and is not the last one, the next phase is called in the same way.  So each
phase is in a state that its own calls and resets lead to (`WorldState.Fits`), and
a reset leads back to the start from every state that calls and resets lead to
(`World.Reachable.reset_eq_start`).
-/

namespace Conditioning

/-! ## The phases of a world -/

/-- A state has a state for each phase, to which calls and resets of the phase lead. -/
structure WorldState.Fits (state : WorldState) (world : World) : Prop where
  size : state.states.size = world.phases.length
  phases : ∀ (i : Nat) (phase : Phase) (phaseState : PhaseState), world.phases[i]? = some phase →
    state.states[i]? = some phaseState → phase.Reachable phaseState

namespace WorldState.Fits

variable {world : World} {state : WorldState}

theorem start (world : World) : world.start.Fits world := by
  refine ⟨by simp [World.start], ?_⟩
  intro i phase phaseState hphase hstate
  have hstarted : phaseState = PhaseState.start phase := by
    simpa [World.start, hphase, eq_comm] using hstate
  rw [hstarted]
  exact .start

theorem reset (h : state.Fits world) : (World.reset state).Fits world := by
  refine ⟨by simpa [World.reset] using h.size, ?_⟩
  intro i phase phaseState hphase hstate
  obtain ⟨before, hbefore, rfl⟩ : ∃ before, state.states[i]? = some before ∧
      before.reset = phaseState := by
    simpa [World.reset] using hstate
  exact (h.phases i phase before hphase hbefore).reset

/-- Stepping one phase keeps the others as they are. -/
theorem set (h : state.Fits world) {i current : Nat} {phase : Phase} {phaseState : PhaseState}
    (hphase : world.phases[i]? = some phase) (hreachable : phase.Reachable phaseState) :
    WorldState.Fits ⟨current, state.states.setIfInBounds i phaseState⟩ world := by
  refine ⟨by simpa using h.size, ?_⟩
  intro j phase' phaseState' hphase' hstate'
  rw [Array.getElem?_setIfInBounds] at hstate'
  split at hstate'
  next heq =>
    subst heq
    split at hstate'
    next =>
      rw [hphase] at hphase'
      cases hphase'
      cases hstate'
      exact hreachable
    next => cases hstate'
  next => exact h.phases j phase' phaseState' hphase' hstate'

theorem next (h : state.Fits world) (response : Option BehaviorId) (g : Generator) :
    (world.next state response g).state.Fits world := by
  fun_induction World.next world state response g with
  | case1 state g phase phaseState hstate hphase move states error hmove =>
    exact h.set hphase ((h.phases _ phase phaseState hphase hstate).next response g)
  | case2 state g phase phaseState hstate hphase move states line stimulus hmove =>
    exact h.set hphase ((h.phases _ phase phaseState hphase hstate).next response g)
  | case3 state g phase phaseState hstate hphase move states hmove hlt ih =>
    exact ih (h.set hphase ((h.phases _ phase phaseState hphase hstate).next response g))
  | case4 state g phase phaseState hstate hphase move states hmove hlast =>
    exact h.set hphase ((h.phases _ phase phaseState hphase hstate).next response g)
  | case5 => exact h

end WorldState.Fits

/-! ## The states of a world -/

/-- The states that calls and resets lead to. -/
inductive World.Reachable (world : World) : WorldState → Prop where
  | start : Reachable world world.start
  | next {state : WorldState} (h : Reachable world state) (response : Option BehaviorId)
      (g : Generator) : Reachable world (world.next state response g).state
  | reset {state : WorldState} (h : Reachable world state) : Reachable world (World.reset state)

/-- The states from which a world begins: before any call, and right after a reset. -/
inductive World.Fresh (world : World) : WorldState → Prop where
  | start : Fresh world world.start
  | reset {state : WorldState} (h : world.Reachable state) : Fresh world (World.reset state)

namespace World

variable {world : World} {state : WorldState}

theorem Reachable.fits (h : world.Reachable state) : state.Fits world := by
  induction h with
  | start => exact .start world
  | next _ response g ih => exact ih.next response g
  | reset _ ih => exact ih.reset

/-- A reset forgets everything, whatever was called before. -/
theorem reset_eq_start_of_fits (h : state.Fits world) : World.reset state = world.start := by
  have hstates : state.states.map PhaseState.reset =
      (world.phases.map PhaseState.start).toArray := by
    apply Array.ext
    · simpa using h.size
    · intro i hi _
      have hi : i < state.states.size := by simpa using hi
      have hphase : i < world.phases.length := h.size ▸ hi
      have hreachable := h.phases i world.phases[i] state.states[i] (List.getElem?_eq_getElem hphase)
        (Array.getElem?_eq_getElem hi)
      simpa using hreachable.reset_eq_start
  simp [World.reset, World.start, hstates]

theorem Reachable.reset_eq_start (h : world.Reachable state) : World.reset state = world.start :=
  reset_eq_start_of_fits h.fits

theorem current_lt_next (h : state.current < world.phases.length) (response : Option BehaviorId)
    (g : Generator) : (world.next state response g).state.current < world.phases.length := by
  fun_induction World.next world state response g with
  | case1 => exact h
  | case2 => exact h
  | case3 state g phase phaseState hstate hphase move states hmove hlt ih => exact ih hlt
  | case4 => exact h
  | case5 => exact h

/-- The current phase is one of the world, which has to have phases. -/
theorem Reachable.current_lt (h : world.Reachable state) (hne : world.phases ≠ []) :
    state.current < world.phases.length := by
  induction h with
  | start => exact List.length_pos_iff.2 hne
  | next _ response g ih => exact current_lt_next ih response g
  | reset => exact List.length_pos_iff.2 hne

theorem Fresh.eq_start (h : world.Fresh state) : state = world.start := by
  cases h with
  | start => rfl
  | reset h => exact h.reset_eq_start

end World

end Conditioning
