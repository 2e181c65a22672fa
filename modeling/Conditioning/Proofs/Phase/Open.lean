import Conditioning.Proofs.Double.Order
import Conditioning.Proofs.Phase.WellFormed
import Conditioning.Proofs.Random.Unit

/-!
# Lines that lead on

A line whose last condition has no guard always leads to a line.  A condition
without a guard that ends a line has a mass of one, up to rounding; its last
running total is then exactly one (`PhaseText.exists_totals_eq`).  A draw is less
than one, so it falls on one of the edges (`PhaseText.isSome_draw_of_closes`).
Conditions before the last one may be passed over or may lead elsewhere, but the
last one is never passed over.

The running totals are compared as doubles, which are ordered here because no
probability is negative or no number.
-/

namespace Conditioning

/-! ## Running totals -/

theorem closeTotals_append_singleton (init : List Float) (total : Float) :
    closeTotals (init ++ [total]) =
      init ++ [if 1.0 - roundingSlack ≤ total then 1.0 else total] := by
  induction init with
  | nil =>
    rw [List.nil_append, List.nil_append, closeTotals]
    split <;> rfl
  | cons first init ih =>
    have hne : init ++ [total] ≠ [] := by simp
    rw [List.cons_append, List.cons_append, ← ih]
    cases hrest : init ++ [total] with
    | nil => exact absurd hrest hne
    | cons second rest => rfl

/-- No running total is negative if no probability is. -/
theorem nonneg_of_mem_runningTotals {acc total : Float} {ps : List Float} (hacc : 0.0 ≤ acc)
    (hps : ∀ p ∈ ps, 0.0 ≤ p) (h : total ∈ runningTotals acc ps) : 0.0 ≤ total := by
  induction ps generalizing acc with
  | nil => cases h
  | cons p ps ih =>
    obtain ⟨hp, hps⟩ := List.forall_mem_cons.1 hps
    have hnext : 0.0 ≤ acc + p := Double.nonneg_add hacc hp
    rcases List.mem_cons.1 h with rfl | h
    · exact hnext
    · exact ih hnext hps h

/-! ## Draws -/

/-- A draw falls on an edge if the totals reach one. -/
theorem Condition.isSome_draw {condition : Condition} (h : 1.0 ∈ condition.totals)
    (g : Generator) : (condition.draw g).1.isSome = true := by
  have hfound : (g.chooseBelow condition.totals).1.isSome = true := by
    rw [Generator.chooseBelow, Choice.below, List.findIdx?_isSome, List.any_eq_true]
    exact ⟨1.0, h, decide_eq_true g.unit_lt_one⟩
  obtain ⟨i, hi⟩ := Option.isSome_iff_exists.1 hfound
  simp only [draw, hi, Option.bind_some, Option.isSome_map]
  rw [List.getElem?_eq_getElem (lt_length_of_chooseBelow hi)]
  rfl

/-- Whether the last condition of a line has no guard. -/
def Line.EndsOpen (line : Line) : Prop :=
  ∃ last, line.conditions.getLast? = some last ∧ last.guard.isOpen = true

namespace PhaseText

/-- A condition without a guard that may end a line has totals that reach one. -/
theorem exists_totals_eq {condition : Condition} (hopen : condition.guard.isOpen = true)
    (hcloses : closes condition = true)
    (hnonneg : ∀ edge ∈ condition.edges, 0.0 ≤ edge.probability) :
    ∃ init, condition.totals = init ++ [1.0] := by
  have hmass : ¬condition.mass < 1.0 - roundingSlack := by
    simpa [closes, hopen] using hcloses
  rcases List.eq_nil_or_concat' (runningTotals 0.0 condition.probabilities) with
    hnil | ⟨init, total, htotals⟩
  · have hzero : condition.mass = 0.0 := by
      rw [Condition.mass, Condition.totals, hnil]
      rfl
    rw [hzero] at hmass
    exact absurd (by decide) hmass
  · have hclosed : condition.totals =
        init ++ [if 1.0 - roundingSlack ≤ total then 1.0 else total] := by
      rw [Condition.totals, htotals, closeTotals_append_singleton]
    by_cases hreached : 1.0 - roundingSlack ≤ total
    · exact ⟨init, by rw [hclosed, if_pos hreached]⟩
    · -- a total that falls short of one is the mass, and the mass does not
      have hsame : condition.mass = total := by
        rw [Condition.mass, hclosed, if_neg hreached, List.getLast?_concat, Option.getD_some]
      have hmem : total ∈ runningTotals 0.0 condition.probabilities := by simp [htotals]
      have htotal : 0.0 ≤ total := by
        have hzero : (0.0 : Float) ≤ 0.0 := by decide
        refine nonneg_of_mem_runningTotals hzero (fun p hp => ?_) hmem
        obtain ⟨edge, hedge, rfl⟩ := List.mem_map.1 hp
        exact hnonneg edge hedge
      have hless := Double.lt_of_not_le htotal (show 0.0 ≤ 1.0 - roundingSlack by decide) hreached
      exact absurd (hsame ▸ hless) hmass

end PhaseText

/-! ## Lines -/

/-- Conditions lead somewhere if the last of them has no guard and all its draws lead somewhere. -/
theorem isSome_leadsTo {conditions : List Condition} {last : Condition}
    (hlast : conditions.getLast? = some last) (hopen : last.guard.isOpen = true)
    (hdraw : ∀ g, (last.draw g).1.isSome = true) (response : Option BehaviorId) (streak : Streak)
    (g : Generator) : (leadsTo response streak conditions g).1.isSome = true := by
  induction conditions generalizing g with
  | nil => cases hlast
  | cons condition conditions ih =>
    cases conditions with
    | nil =>
      obtain rfl : condition = last := Option.some.inj hlast
      have hguard : condition.guard.holds response streak = true := by
        obtain ⟨hnone, hcount⟩ :
            condition.guard.response = none ∧ condition.guard.count = none := by
          simpa [Guard.isOpen] using hopen
        simp [Guard.holds, hnone, hcount]
      obtain ⟨target, htarget⟩ := Option.isSome_iff_exists.1 (hdraw g)
      rw [leadsTo, if_pos hguard]
      split
      next => rfl
      next hnone =>
        rw [hnone] at htarget
        cases htarget
    | cons second rest =>
      have hrest : (second :: rest).getLast? = some last := by
        rwa [List.getLast?_cons_cons] at hlast
      rw [leadsTo]
      split
      next =>
        split
        next => rfl
        next => exact ih hrest _
      next => exact ih hrest g

namespace PhaseText

variable {text : PhaseText} {vocabulary : Vocabulary} {phase : Phase}

theorem isSome_leadsTo_of_compile (h : text.compile vocabulary = .ok phase) {line : Line}
    (hline : line ∈ phase.lines) (hopen : line.EndsOpen) (response : Option BehaviorId)
    (streak : Streak) (g : Generator) :
    (leadsTo response streak line.conditions g).1.isSome = true := by
  obtain ⟨last, hlast, hguard⟩ := hopen
  have hmem : last ∈ line.conditions := List.mem_of_getLast? hlast
  obtain ⟨init, htotals⟩ := exists_totals_eq hguard (closes_of_compile h hline hlast)
    fun edge hedge => (isEdge_of_compile h hline hmem hedge).2.1
  have hone : 1.0 ∈ last.totals := by simp [htotals]
  exact isSome_leadsTo hlast hguard (last.isSome_draw hone) response streak g

end PhaseText

/-! ## Calls -/

namespace Phase

theorem present_ne_error (phase : Phase) (state : PhaseState) (response : Option BehaviorId)
    (g : Generator) (error : Error) : (phase.present state response g).outcome ≠ .error error := by
  intro h
  obtain ⟨-, e⟩ | ⟨-, e⟩ := phase.present_cases state response g <;> rw [e] at h <;> cases h

/-- A call fails only if the conditions of the current line lead nowhere. -/
theorem next_ne_error {phase : Phase} {state : PhaseState} {response : Option BehaviorId}
    {g : Generator}
    (h : (leadsTo response (state.leaving response) (phase.conditionsAt state.current) g).1.isSome =
      true) (error : Error) : (phase.next state response g).outcome ≠ .error error := by
  obtain ⟨-, e⟩ | ⟨-, g', hnone, -⟩ | ⟨-, target, g', -, e⟩ := phase.next_cases state response g
  · rw [e]
    exact phase.present_ne_error _ response g error
  · rw [hnone] at h
    cases h
  · rw [e]
    exact phase.present_ne_error _ response g' error

/-- A call does not fail on a line whose last condition has no guard, and a phase with no other
lines never fails. -/
theorem never_stuck {text : PhaseText} {vocabulary : Vocabulary} {phase : Phase}
    (h : text.compile vocabulary = .ok phase) :
    (∀ (state : PhaseState) (line : Line), phase.lines[state.current]? = some line →
      line.EndsOpen → ∀ response g error, (phase.next state response g).outcome ≠ .error error) ∧
    ((∀ line ∈ phase.lines, line.EndsOpen) → ∀ state, phase.Reachable state →
      ∀ response g error, (phase.next state response g).outcome ≠ .error error) := by
  have hline : ∀ (state : PhaseState) (line : Line), phase.lines[state.current]? = some line →
      line.EndsOpen → ∀ response g error,
        (phase.next state response g).outcome ≠ .error error := by
    intro state line hcurrent hopen response g error
    refine next_ne_error ?_ error
    rw [conditionsAt, hcurrent]
    exact PhaseText.isSome_leadsTo_of_compile h (List.mem_of_getElem? hcurrent) hopen ..
  refine ⟨hline, ?_⟩
  intro hall state hreachable response g error
  obtain ⟨line, hmem, hcurrent⟩ :=
    exists_line_of_lt (hreachable.current_lt (PhaseText.wellFormed_of_compile h))
  exact hline state line hcurrent (hall line hmem) response g error

/-- Both lines of the trial end in a condition without a guard, so the trial never fails. -/
theorem never_stuck_trial :
    PhaseText.trial.compile PhaseText.trialVocabulary = .ok PhaseText.trialPhase ∧
      (∀ line ∈ PhaseText.trialPhase.lines, line.EndsOpen) ∧
      ∀ state, PhaseText.trialPhase.Reachable state → ∀ response g error,
        (PhaseText.trialPhase.next state response g).outcome ≠ .error error := by
  have hopen : ∀ line ∈ PhaseText.trialPhase.lines, line.EndsOpen := by
    intro line hline
    rcases List.mem_pair.1 hline with rfl | rfl
    · exact ⟨_, rfl, by rfl⟩
    · exact ⟨_, rfl, by rfl⟩
  exact ⟨PhaseText.compile_trial, hopen, (never_stuck PhaseText.compile_trial).2 hopen⟩

end Phase

end Conditioning
