import Conditioning.Proofs.Mechanism.WellFormed
import Conditioning.Proofs.Phase.WellFormed
import Conditioning.Proofs.World.Reachable

/-!
# Worlds that show declared elements

A world of compiled phases shows the stimuli of their lines.  The current phase
and its current line always exist, so every stimulus shown has elements, and all
of them are declared (`World.declared_of_next`).
-/

namespace Conditioning

/-! ## Phases -/

namespace Phase

variable {phase : Phase} {state : PhaseState} {response : Option BehaviorId} {g : Generator}
  {line : Nat} {stimulus : Stimulus}

theorem WellFormed.declared_stimulusAt (h : phase.WellFormed)
    (hcurrent : state.current < phase.lines.length) :
    (phase.stimulusAt state.current).Declared phase.vocabulary := by
  obtain ⟨line, hmem, hline⟩ := exists_line_of_lt hcurrent
  rw [stimulusAt, hline]
  exact ⟨h.stimulus_ne_nil line hmem, h.element_lt line hmem⟩

theorem WellFormed.declared_of_present (h : phase.WellFormed)
    (hcurrent : state.current < phase.lines.length)
    (hshown : (phase.present state response g).outcome = .ok (some (line, stimulus))) :
    stimulus.Declared phase.vocabulary := by
  obtain ⟨-, e⟩ | ⟨-, e⟩ := phase.present_cases state response g
  · rw [e] at hshown
    cases hshown
  · rw [e] at hshown
    cases hshown
    exact h.declared_stimulusAt hcurrent

theorem WellFormed.declared_of_next (h : phase.WellFormed)
    (hcurrent : state.current < phase.lines.length)
    (hshown : (phase.next state response g).outcome = .ok (some (line, stimulus))) :
    stimulus.Declared phase.vocabulary := by
  obtain ⟨-, e⟩ | ⟨-, g', -, e⟩ | ⟨-, target, g', hleads, e⟩ := phase.next_cases state response g
  · rw [e] at hshown
    refine h.declared_of_present (?_ : PhaseState.current _ < _) hshown
    exact hcurrent
  · rw [e] at hshown
    cases hshown
  · rw [e] at hshown
    refine h.declared_of_present (?_ : PhaseState.current _ < _) hshown
    exact h.target_lt_of_leadsTo hleads

end Phase

/-! ## Worlds -/

/-- A world has phases, and all of them were compiled for one vocabulary. -/
structure World.WellFormed (world : World) (vocabulary : Vocabulary) : Prop where
  phases_ne_nil : world.phases ≠ []
  phase : ∀ phase ∈ world.phases, phase.WellFormed
  vocabulary_eq : ∀ phase ∈ world.phases, phase.vocabulary = vocabulary

namespace World

variable {world : World} {vocabulary : Vocabulary} {state : WorldState}

/-- What a world shows are declared elements, one at least. -/
theorem declared_of_next (h : world.WellFormed vocabulary) (hstate : state.Fits world)
    {response : Option BehaviorId} {g : Generator} {emission : Emission}
    (hshown : (world.next state response g).outcome = .ok (some emission)) :
    emission.stimulus.Declared vocabulary := by
  fun_induction World.next world state response g with
  | case1 => cases hshown
  | case2 state g phase phaseState hphaseState hphase move states line stimulus hmove =>
    cases hshown
    have hmem := List.mem_of_getElem? hphase
    have hreachable := hstate.phases _ phase phaseState hphase hphaseState
    have hcurrent := hreachable.current_lt (h.phase phase hmem)
    rw [← h.vocabulary_eq phase hmem]
    exact (h.phase phase hmem).declared_of_next hcurrent hmove
  | case3 state g phase phaseState hphaseState hphase move states hmove hlt ih =>
    have hreachable := hstate.phases _ phase phaseState hphase hphaseState
    exact ih (hstate.set hphase (hreachable.next response g)) hshown
  | case4 => cases hshown
  | case5 => cases hshown

theorem wellFormed_of_compile {phases : List Phase} {texts : List PhaseText}
    (hne : phases ≠ []) (h : (texts.mapM fun text => text.compile vocabulary) = .ok phases) :
    World.WellFormed ⟨phases⟩ vocabulary where
  phases_ne_nil := hne
  phase := fun _ hphase =>
    have ⟨_, _, hcompile⟩ := exists_of_mem_mapM h hphase
    PhaseText.wellFormed_of_compile hcompile
  vocabulary_eq := fun _ hphase =>
    have ⟨_, _, hcompile⟩ := exists_of_mem_mapM h hphase
    PhaseText.vocabulary_of_compile hcompile

end World

end Conditioning
