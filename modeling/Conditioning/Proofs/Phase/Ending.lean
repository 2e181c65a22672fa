import Conditioning.Proofs.Phase.Reachable

/-!
# How a phase begins and ends

A phase that asks for an occurrence has not had it before its first stimulus,
so the first call shows one.  The counts that decide the end change only with a
stimulus that is shown.  So a phase that is over stays over.
-/

namespace Conditioning

@[simp] theorem Tally.word_start (phase : Phase) (key : EndKey) :
    (Tally.start phase).word key = 0 := by
  cases key <;> simp only [word, start, Array.getD_eq_getD_getElem?, Array.getElem?_replicate] <;>
    split <;> rfl

@[simp] theorem Tally.get_start (phase : Phase) (key : EndKey) :
    (Tally.start phase).get key = 0 := by
  rw [get, word_start]
  rfl

namespace Phase

variable {phase : Phase} {state : PhaseState}

/-! Only the counts decide whether a phase is over. -/

@[simp] theorem isOver_open : phase.isOver { state with started := true } = phase.isOver state :=
  rfl

theorem isOver_start (hthreshold : 0 < phase.ending.threshold) :
    phase.isOver (PhaseState.start phase) = false := by
  simp only [isOver, PhaseState.start, Tally.get_start, decide_eq_false_iff_not]
  omega

theorem isOver_of_present_eq_none {response : Option BehaviorId} {g : Generator}
    (h : (phase.present state response g).outcome = .ok none) :
    phase.isOver (phase.present state response g).state = true := by
  obtain ⟨hover, e⟩ | ⟨-, e⟩ := phase.present_cases state response g
  · rw [e]
    exact hover
  · rw [e] at h
    cases h

theorem present_of_isOver (h : phase.isOver state = true) (response : Option BehaviorId)
    (g : Generator) : phase.present state response g = ⟨.ok none, state, g⟩ := by
  obtain ⟨-, e⟩ | ⟨hover, -⟩ := phase.present_cases state response g
  · exact e
  · rw [h] at hover
    cases hover

/-- The first call of a phase shows its first line. -/
theorem next_start (hthreshold : 0 < phase.ending.threshold) (response : Option BehaviorId)
    (g : Generator) :
    (phase.next (PhaseState.start phase) response g).outcome =
      .ok (some (0, phase.stimulusAt 0)) := by
  obtain ⟨-, e⟩ | ⟨hs, -⟩ | ⟨hs, -⟩ := phase.next_cases (PhaseState.start phase) response g
  · rw [e]
    obtain ⟨hover, -⟩ | ⟨-, e⟩ := phase.present_cases _ response g
    · rw [isOver_open, isOver_start hthreshold] at hover
      cases hover
    · rw [e]
      rfl
  · cases hs
  · cases hs

/-- A call that shows nothing finds the phase over. -/
theorem isOver_of_next_eq_none {response : Option BehaviorId} {g : Generator}
    (h : (phase.next state response g).outcome = .ok none) :
    phase.isOver (phase.next state response g).state = true := by
  obtain ⟨-, e⟩ | ⟨-, g', -, e⟩ | ⟨-, target, g', -, e⟩ := phase.next_cases state response g
  · rw [e] at h ⊢
    exact isOver_of_present_eq_none h
  · rw [e] at h
    cases h
  · rw [e] at h ⊢
    exact isOver_of_present_eq_none h

/-- A phase that is over stays over, and shows nothing more. -/
theorem next_of_isOver (h : phase.isOver state = true) (response : Option BehaviorId)
    (g : Generator) :
    phase.isOver (phase.next state response g).state = true ∧
      ∀ emission, (phase.next state response g).outcome ≠ .ok (some emission) := by
  obtain ⟨-, e⟩ | ⟨-, g', -, e⟩ | ⟨-, target, g', -, e⟩ := phase.next_cases state response g
  · have hopen : phase.isOver { state with started := true } = true := h
    rw [e, present_of_isOver hopen response g]
    exact ⟨hopen, fun _ he => by cases he⟩
  · rw [e]
    exact ⟨h, fun _ he => by cases he⟩
  · have hmoved : phase.isOver (state.moveTo target response) = true := h
    rw [e, present_of_isOver hmoved response g']
    exact ⟨hmoved, fun _ he => by cases he⟩

end Phase

end Conditioning
