import Conditioning.Proofs.Phase.Compiled
import Conditioning.Proofs.Phase.Ending

/-!
# Calls of a phase that is over

A phase looks for the next line before it looks at its counts.  So a phase that
is over does not simply end: it ends if the conditions of its current line lead
to some line, and it fails like any other phase if they do not
(`Phase.next_eq_none_iff_of_reached`).  It shows nothing in either case.

A phase whose only condition asks for a press shows the difference.  It is over
with its first stimulus, and fails when this stimulus is not answered by a press
(`Phase.not_next_eq_none_of_reached`).
-/

namespace Conditioning

namespace Phase

variable {phase : Phase} {state : PhaseState}

/-- A call opens a phase, whatever else it does. -/
theorem started_next (response : Option BehaviorId) (g : Generator) :
    (phase.next state response g).state.started = true := by
  obtain ⟨-, e⟩ | ⟨hs, g', -, e⟩ | ⟨hs, target, g', -, e⟩ := phase.next_cases state response g
  · rw [e, present_started]
  · rw [e]
    exact hs
  · rw [e, present_started]
    exact hs

/-- A phase that is not open has not done anything yet. -/
theorem Reachable.eq_start_of_not_started (h : phase.Reachable state)
    (hstarted : state.started = false) : state = PhaseState.start phase := by
  cases h with
  | start => rfl
  | next _ response g =>
    rw [started_next] at hstarted
    cases hstarted
  | reset h => exact h.reset_eq_start

theorem Reachable.started_of_isOver (h : phase.Reachable state)
    (hthreshold : 0 < phase.ending.threshold) (hover : phase.isOver state = true) :
    state.started = true := by
  by_contra hnot
  have hstart := h.eq_start_of_not_started (by simpa using hnot)
  rw [hstart, isOver_start hthreshold] at hover
  cases hover

/-- When the end key of a compiled phase has reached its threshold, a call ends the phase just if
the conditions of the current line lead anywhere, and otherwise fails for want of a condition. -/
theorem next_eq_none_iff_of_reached {text : PhaseText} {vocabulary : Vocabulary}
    (hcompile : text.compile vocabulary = .ok phase) (hreachable : phase.Reachable state)
    (hreached : phase.ending.threshold ≤ state.tally.get phase.ending.key)
    (response : Option BehaviorId) (g : Generator) :
    let found := (leadsTo response (state.leaving response) (phase.conditionsAt state.current) g).1
    let outcome := (phase.next state response g).outcome
    (outcome = .ok none ↔ found.isSome = true) ∧
      (outcome ≠ .ok none → outcome = .error (phase.deadEnd state.current response)) := by
  intro found outcome
  have hover : phase.isOver state = true := decide_eq_true hreached
  have hstarted :=
    hreachable.started_of_isOver (PhaseText.threshold_pos_of_compile hcompile) hover
  obtain ⟨hs, -⟩ | ⟨-, g', hleads, e⟩ | ⟨-, target, g', hleads, e⟩ :=
    phase.next_cases state response g
  · rw [hstarted] at hs
    cases hs
  · have hfound : found = none := congrArg Prod.fst hleads
    have houtcome : outcome = .error (phase.deadEnd state.current response) := by
      simp only [outcome, e]
    refine ⟨?_, fun _ => houtcome⟩
    rw [houtcome, hfound]
    constructor <;> intro h <;> cases h
  · have hfound : found = some target := congrArg Prod.fst hleads
    have hmoved : phase.isOver (state.moveTo target response) = true := hover
    have houtcome : outcome = .ok none := by
      simp only [outcome, e, present_of_isOver hmoved]
    refine ⟨?_, fun hne => absurd houtcome hne⟩
    rw [houtcome, hfound]
    simp

end Phase

/-! ## A phase that asks for a press -/

namespace PhaseText

/-- The conditioned stimulus is shown once, and nothing but a press leads on. -/
def strict : PhaseText where
  label := "strict"
  ending := "cs=1"
  rows := ["CS cs | press: CS"]

/-- The phase that `strict` stands for. -/
def strictPhase : Phase where
  label := "strict"
  vocabulary := trialVocabulary
  lines := [⟨"CS", ⟨[0]⟩, [⟨⟨some 1, none⟩, [⟨1.0, 0⟩]⟩]⟩]
  ending := ⟨.element 0, 1⟩

theorem line_strict :
    line trialVocabulary ["CS"] "strict" "CS" "cs | press: CS".toList =
      .ok ⟨"CS", ⟨[0]⟩, [⟨⟨some 1, none⟩, [⟨1.0, 0⟩]⟩]⟩ := by
  have hcut : Text.cut '|' "cs | press: CS".toList = some ("cs ".toList, " press: CS".toList) :=
    rfl
  simp only [line, hcut, stimulusNames_cs]
  rfl

theorem compile_strict : strict.compile trialVocabulary = .ok strictPhase := by
  have hrows : labelled trialVocabulary strict.label [] strict.rows =
      .ok [("CS", "cs | press: CS".toList)] := rfl
  have hlines : ([("CS", "cs | press: CS".toList)].mapM fun row =>
      line trialVocabulary ["CS"] strict.label row.1 row.2) = .ok strictPhase.lines :=
    mapM_eq_ok.2 (.cons line_strict .nil)
  have hending : endCondition trialVocabulary ["CS"] strict.label strict.ending =
      .ok strictPhase.ending := rfl
  exact compile_of_read rfl hrows hlines hending

end PhaseText

namespace Phase

open PhaseText (strict strictPhase)

/-- `strict` after its only stimulus. -/
def strictShown : PhaseState := (strictPhase.next (PhaseState.start strictPhase) none ⟨1⟩).state

theorem reachable_strictShown : strictPhase.Reachable strictShown := .next .start none ⟨1⟩

theorem next_strictShown (g : Generator) :
    (strictPhase.next strictShown (some 0) g).outcome =
      .error (.noConditionMet "strict" "CS" "wait") := rfl

/-- `strict` ends with a press, and fails with anything else. -/
theorem next_eq_none_iff_of_reached_strict :
    strict.compile PhaseText.trialVocabulary = .ok strictPhase ∧
      strictPhase.Reachable strictShown ∧
      strictPhase.ending.threshold ≤ strictShown.tally.get strictPhase.ending.key ∧
      (strictPhase.next strictShown (some 1) ⟨1⟩).outcome = .ok none ∧
      (strictPhase.next strictShown (some 0) ⟨1⟩).outcome =
        .error (strictPhase.deadEnd 0 (some 0)) := by
  have hreached : strictPhase.ending.threshold ≤ strictShown.tally.get strictPhase.ending.key := by
    decide +kernel
  have hpress := next_eq_none_iff_of_reached PhaseText.compile_strict reachable_strictShown hreached
    (some 1) ⟨1⟩
  have hwait := next_eq_none_iff_of_reached PhaseText.compile_strict reachable_strictShown hreached
    (some 0) ⟨1⟩
  refine ⟨PhaseText.compile_strict, reachable_strictShown, hreached,
    hpress.1.2 (by decide +kernel), hwait.2 fun hnone => ?_⟩
  rw [next_strictShown] at hnone
  cases hnone

/-- Not every call of a compiled phase whose end key has reached its threshold ends the phase. -/
theorem not_next_eq_none_of_reached :
    ¬∀ (text : PhaseText) (vocabulary : Vocabulary) (phase : Phase) (state : PhaseState),
      text.compile vocabulary = .ok phase → phase.Reachable state →
        phase.ending.threshold ≤ state.tally.get phase.ending.key →
          ∀ (response : Option BehaviorId) (g : Generator),
            (phase.next state response g).outcome = .ok none := by
  intro h
  have hnone := h strict PhaseText.trialVocabulary strictPhase strictShown PhaseText.compile_strict
    reachable_strictShown (by decide +kernel) (some 0) ⟨1⟩
  rw [next_strictShown] at hnone
  cases hnone

end Phase

end Conditioning
