import Conditioning.Phase.Step
import Conditioning.Proofs.Cells

/-!
# What a call does to a phase

A call does one of three things: it opens the phase, it finds no way on from the
current line, or it moves on to another line.  In the first case and the last,
the phase then shows its line or finds that it is over.  `Phase.next_cases` and
`Phase.present_cases` say this once, and every property of runs of a phase is
read off them.

The states of a phase are those that calls and resets lead to from its start.
All of them have one count for each line, element and behavior, and one
succession for each line, so a reset leads back to the start from any of them
(`Phase.Reachable.reset_eq_start`).
-/

namespace Conditioning

/-! ## The cases of a call -/

namespace Phase

variable (phase : Phase) (state : PhaseState) (response : Option BehaviorId) (g : Generator)

theorem present_cases :
    (phase.isOver state = true ∧ phase.present state response g = ⟨.ok none, state, g⟩) ∨
    (phase.isOver state = false ∧ phase.present state response g =
      ⟨.ok (some (state.current, phase.stimulusAt state.current)),
        { state with
          tally := state.tally.record state.current (phase.stimulusAt state.current) response },
        g⟩) := by
  cases h : phase.isOver state with
  | true => exact .inl ⟨rfl, by simp [present, h]⟩
  | false => exact .inr ⟨rfl, by simp [present, h]⟩

/-! Showing a line changes nothing but the counts. -/

@[simp] theorem present_started :
    (phase.present state response g).state.started = state.started := by
  obtain ⟨-, e⟩ | ⟨-, e⟩ := phase.present_cases state response g <;> rw [e]

@[simp] theorem present_current :
    (phase.present state response g).state.current = state.current := by
  obtain ⟨-, e⟩ | ⟨-, e⟩ := phase.present_cases state response g <;> rw [e]

@[simp] theorem present_previous :
    (phase.present state response g).state.previous = state.previous := by
  obtain ⟨-, e⟩ | ⟨-, e⟩ := phase.present_cases state response g <;> rw [e]

@[simp] theorem present_streaks :
    (phase.present state response g).state.streaks = state.streaks := by
  obtain ⟨-, e⟩ | ⟨-, e⟩ := phase.present_cases state response g <;> rw [e]

theorem next_cases :
    (state.started = false ∧
      phase.next state response g = phase.present { state with started := true } response g) ∨
    (state.started = true ∧ ∃ g',
      leadsTo response (state.leaving response) (phase.conditionsAt state.current) g = (none, g') ∧
      phase.next state response g =
        ⟨.error (phase.deadEnd state.current response), state.leave response, g'⟩) ∨
    (state.started = true ∧ ∃ target g',
      leadsTo response (state.leaving response) (phase.conditionsAt state.current) g =
        (some target, g') ∧
      phase.next state response g = phase.present (state.moveTo target response) response g') := by
  cases hs : state.started with
  | false => exact .inl ⟨rfl, by simp [next, hs]⟩
  | true =>
    cases hl : leadsTo response (state.leaving response) (phase.conditionsAt state.current) g with
    | mk found g' =>
      cases found with
      | none => exact .inr (.inl ⟨rfl, g', rfl, by simp [next, hs, hl]⟩)
      | some target => exact .inr (.inr ⟨rfl, target, g', rfl, by simp [next, hs, hl]⟩)

end Phase

/-! ## The line that conditions lead to -/

/-- An index that is drawn is that of an edge: there is a running total for each of them. -/
theorem Condition.lt_length_of_chooseBelow {condition : Condition} {g : Generator} {i : Nat}
    (h : (g.chooseBelow condition.totals).1 = some i) : i < condition.edges.length := by
  rw [← condition.length_totals]
  exact (List.findIdx?_eq_some_iff_getElem.1 h).1

theorem Condition.exists_edge_of_draw {condition : Condition} {g g' : Generator} {target : Nat}
    (h : condition.draw g = (some target, g')) :
    ∃ edge ∈ condition.edges, edge.target = target := by
  simp only [Condition.draw, Prod.mk.injEq] at h
  obtain ⟨i, -, hi⟩ := Option.bind_eq_some_iff.1 h.1
  obtain ⟨edge, hedge, rfl⟩ := Option.map_eq_some_iff.1 hi
  exact ⟨edge, List.mem_of_getElem? hedge, rfl⟩

/-- A line that conditions lead to is the target of an edge of a condition whose guard holds. -/
theorem exists_condition_of_leadsTo {response : Option BehaviorId} {streak : Streak}
    {conditions : List Condition} {g g' : Generator} {target : Nat}
    (h : leadsTo response streak conditions g = (some target, g')) :
    ∃ condition ∈ conditions, condition.guard.holds response streak = true ∧
      ∃ edge ∈ condition.edges, edge.target = target := by
  induction conditions generalizing g with
  | nil => simp [leadsTo] at h
  | cons condition conditions ih =>
    have later {g : Generator} (h : leadsTo response streak conditions g = (some target, g')) :
        ∃ c ∈ condition :: conditions, c.guard.holds response streak = true ∧
          ∃ edge ∈ c.edges, edge.target = target := by
      obtain ⟨c, hc, hrest⟩ := ih h
      exact ⟨c, List.mem_cons_of_mem condition hc, hrest⟩
    simp only [leadsTo] at h
    split at h
    next hguard =>
      split at h
      next found g'' hdraw =>
        cases h
        exact ⟨condition, List.mem_cons_self, hguard, condition.exists_edge_of_draw hdraw⟩
      next => exact later h
    next => exact later h

/-- Only a line that the phase has leads anywhere. -/
theorem Phase.lt_length_of_leadsTo {phase : Phase} {line target : Nat}
    {response : Option BehaviorId} {streak : Streak} {g g' : Generator}
    (h : leadsTo response streak (phase.conditionsAt line) g = (some target, g')) :
    line < phase.lines.length := by
  obtain ⟨condition, hcondition, -⟩ := exists_condition_of_leadsTo h
  unfold conditionsAt at hcondition
  split at hcondition
  next hline => exact (List.getElem?_eq_some_iff.1 hline).1
  next => cases hcondition

/-! ## Sizes -/

namespace Tally

@[simp] theorem size_bump (counts : Array UInt32) (i : Nat) :
    (bump counts i).size = counts.size :=
  Array.size_modify

@[simp] theorem size_foldl_bump (elements : List ElementId) (counts : Array UInt32) :
    (elements.foldl bump counts).size = counts.size :=
  size_foldl_modify (· + 1) elements counts

variable (tally : Tally) (line : Nat) (stimulus : Stimulus) (response : Option BehaviorId)

@[simp] theorem size_lineWords_record :
    (tally.record line stimulus response).lineWords.size = tally.lineWords.size := by
  simp [record]

@[simp] theorem size_elementWords_record :
    (tally.record line stimulus response).elementWords.size = tally.elementWords.size := by
  simp [record]

@[simp] theorem size_behaviorWords_record :
    (tally.record line stimulus response).behaviorWords.size = tally.behaviorWords.size := by
  cases response <;> simp [record]

end Tally

/-- A state has one succession for each line, and one count for each line, element and behavior. -/
structure PhaseState.Fits (state : PhaseState) (phase : Phase) : Prop where
  streaks : state.streaks.size = phase.lines.length
  lines : state.tally.lineWords.size = phase.lines.length
  elements : state.tally.elementWords.size = phase.vocabulary.elementCount
  behaviors : state.tally.behaviorWords.size = phase.vocabulary.behaviorCount

namespace PhaseState.Fits

variable {state : PhaseState} {phase : Phase}

theorem start (phase : Phase) : (PhaseState.start phase).Fits phase := by
  constructor <;> simp [PhaseState.start, Tally.start]

theorem reset (h : state.Fits phase) : state.reset.Fits phase := by
  obtain ⟨hs, hl, he, hb⟩ := h
  constructor <;> simpa [PhaseState.reset, Tally.reset]

theorem leave (h : state.Fits phase) (response : Option BehaviorId) :
    (state.leave response).Fits phase := by
  obtain ⟨hs, hl, he, hb⟩ := h
  constructor <;> simpa [PhaseState.leave]

theorem moveTo (h : state.Fits phase) (target : Nat) (response : Option BehaviorId) :
    (state.moveTo target response).Fits phase := by
  obtain ⟨hs, hl, he, hb⟩ := h.leave response
  exact ⟨hs, hl, he, hb⟩

theorem present (h : state.Fits phase) (response : Option BehaviorId) (g : Generator) :
    (phase.present state response g).state.Fits phase := by
  obtain ⟨-, e⟩ | ⟨-, e⟩ := phase.present_cases state response g
  · rw [e]
    exact h
  · rw [e]
    obtain ⟨hs, hl, he, hb⟩ := h
    constructor <;> simpa

theorem next (h : state.Fits phase) (response : Option BehaviorId) (g : Generator) :
    (phase.next state response g).state.Fits phase := by
  obtain ⟨-, e⟩ | ⟨-, g', -, e⟩ | ⟨-, target, g', -, e⟩ := phase.next_cases state response g
  · have opened : PhaseState.Fits { state with started := true } phase := by
      obtain ⟨hs, hl, he, hb⟩ := h
      exact ⟨hs, hl, he, hb⟩
    rw [e]
    exact opened.present response g
  · rw [e]
    exact h.leave response
  · rw [e]
    exact (h.moveTo target response).present response g'

end PhaseState.Fits

/-! ## The states of a phase -/

/-- The states that calls and resets lead to. -/
inductive Phase.Reachable (phase : Phase) : PhaseState → Prop where
  | start : Reachable phase (PhaseState.start phase)
  | next {state : PhaseState} (h : Reachable phase state) (response : Option BehaviorId)
      (g : Generator) : Reachable phase (phase.next state response g).state
  | reset {state : PhaseState} (h : Reachable phase state) : Reachable phase state.reset

/-- The states from which a phase begins: before any call, and right after a reset. -/
inductive Phase.Fresh (phase : Phase) : PhaseState → Prop where
  | start : Fresh phase (PhaseState.start phase)
  | reset {state : PhaseState} (h : phase.Reachable state) : Fresh phase state.reset

namespace Phase

variable {phase : Phase} {state : PhaseState}

theorem Reachable.fits (h : phase.Reachable state) : state.Fits phase := by
  induction h with
  | start => exact .start phase
  | next _ response g ih => exact ih.next response g
  | reset _ ih => exact ih.reset

/-- A reset forgets everything, whatever was called before. -/
theorem reset_eq_start_of_fits (h : state.Fits phase) : state.reset = PhaseState.start phase := by
  obtain ⟨hs, hl, he, hb⟩ := h
  simp [PhaseState.reset, PhaseState.start, Tally.reset, Tally.start, Array.map_const', hs, hl, he,
    hb]

theorem Reachable.reset_eq_start (h : phase.Reachable state) :
    state.reset = PhaseState.start phase :=
  reset_eq_start_of_fits h.fits

theorem Fresh.eq_start (h : phase.Fresh state) : state = PhaseState.start phase := by
  cases h with
  | start => rfl
  | reset h => exact h.reset_eq_start

end Phase

end Conditioning
