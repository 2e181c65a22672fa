import Conditioning.Proofs.Run.Sequence
import Conditioning.Proofs.Run.Steps

/-!
# Experiments that go on for longer

A phase looks at its threshold for one thing only, which is whether it is over.  So
a phase with a higher threshold shows all that the phase shows, in the same states
and with the same draws, and only then goes on.  If that phase is the last one, the
world has nothing else to change to, and the steps of a run are steps of the longer
one (`Run.replay_prolong`).

A record is known from these steps, up to the points that are noted at the end of a
session for the cells that are not up to date.  These tell what was learned by then,
which is also what the longer record tells of that step.  Therefore it begins with
the shorter one (`Run.begins_of_simulate_prolong`).
-/

namespace Conditioning

/-! ## Phases -/

namespace Phase

variable (phase : Phase) (n : Nat)

/-- The phase that ends with another count of the same key. -/
def withThreshold : Phase := { phase with ending := { phase.ending with threshold := n } }

variable {phase n}

theorem isOver_of_withThreshold (hle : phase.ending.threshold ≤ n) {state : PhaseState}
    (h : (phase.withThreshold n).isOver state = true) : phase.isOver state = true := by
  have hcount : n ≤ state.tally.get phase.ending.key := of_decide_eq_true h
  exact decide_eq_true (Nat.le_trans hle hcount)

/-- What is shown below a threshold is shown below a higher one. -/
theorem present_withThreshold (hle : phase.ending.threshold ≤ n) {state : PhaseState}
    {response : Option BehaviorId} {g : Generator} {shown : Nat × Stimulus}
    (h : (phase.present state response g).outcome = .ok (some shown)) :
    (phase.withThreshold n).present state response g = phase.present state response g := by
  obtain ⟨-, e⟩ | ⟨hover, e⟩ := phase.present_cases state response g
  · rw [e] at h
    cases h
  · obtain ⟨hlong, -⟩ | ⟨-, elong⟩ := (phase.withThreshold n).present_cases state response g
    · rw [isOver_of_withThreshold hle hlong] at hover
      cases hover
    · rw [e, elong]
      rfl

theorem next_withThreshold (hle : phase.ending.threshold ≤ n) {state : PhaseState}
    {response : Option BehaviorId} {g : Generator} {shown : Nat × Stimulus}
    (h : (phase.next state response g).outcome = .ok (some shown)) :
    (phase.withThreshold n).next state response g = phase.next state response g := by
  have hconditions : (phase.withThreshold n).conditionsAt state.current =
      phase.conditionsAt state.current := rfl
  obtain ⟨hstarted, e⟩ | ⟨-, g', -, e⟩ | ⟨hstarted, target, g', hleads, e⟩ :=
    phase.next_cases state response g
  · rw [e] at h
    rw [e, next, if_neg (by simp [hstarted]), present_withThreshold hle h]
  · rw [e] at h
    cases h
  · rw [e] at h
    rw [e, next, if_pos hstarted, hconditions, hleads]
    exact present_withThreshold hle h

end Phase

/-! ## Worlds -/

namespace World

variable (world : World) (n : Nat)

/-- The world whose last phase ends with another count of the same key. -/
def prolong : World where
  phases := world.phases.modify (world.phases.length - 1) (·.withThreshold n)

@[simp] theorem length_phases_prolong : (world.prolong n).phases.length = world.phases.length :=
  List.length_modify ..

@[simp] theorem start_prolong : (world.prolong n).start = world.start := by
  have hstates : (world.prolong n).phases.map PhaseState.start =
      world.phases.map PhaseState.start := by
    refine List.ext_getElem? fun i => ?_
    rw [List.getElem?_map, List.getElem?_map, prolong, List.getElem?_modify]
    cases world.phases[i]? with
    | none => rfl
    | some phase => split <;> rfl
  rw [start, hstates, start]

variable {world n}

/-- Any phase but the last one stays as it is. -/
theorem getElem?_phases_prolong {i : Nat} (hi : i + 1 < world.phases.length) :
    (world.prolong n).phases[i]? = world.phases[i]? := by
  have hne : world.phases.length - 1 ≠ i := by omega
  simp [prolong, hne]

/-- A phase that shows something shows the same in the longer world. -/
theorem exists_phase_prolong (hle : ∀ phase ∈ world.phases.getLast?, phase.ending.threshold ≤ n)
    {i : Nat} {phase : Phase} (hphase : world.phases[i]? = some phase) {state : PhaseState}
    {response : Option BehaviorId} {g : Generator} {shown : Nat × Stimulus}
    (h : (phase.next state response g).outcome = .ok (some shown)) :
    ∃ longer, (world.prolong n).phases[i]? = some longer ∧
      longer.next state response g = phase.next state response g := by
  rcases Nat.lt_or_ge (i + 1) world.phases.length with hlt | hge
  · exact ⟨phase, (getElem?_phases_prolong hlt).trans hphase, rfl⟩
  · have hi : world.phases.length - 1 = i := by
      have hlt := (List.getElem?_eq_some_iff.1 hphase).1
      omega
    have hlast : phase ∈ world.phases.getLast? := by
      rw [List.getLast?_eq_getElem?, hi]
      exact hphase
    refine ⟨phase.withThreshold n, ?_, Phase.next_withThreshold (hle phase hlast) h⟩
    simp [prolong, hi, hphase]

/-- A world that shows something does the same if it is longer. -/
theorem next_prolong (hle : ∀ phase ∈ world.phases.getLast?, phase.ending.threshold ≤ n)
    {state : WorldState} {response : Option BehaviorId} {g : Generator} {emission : Emission}
    (h : (world.next state response g).outcome = .ok (some emission)) :
    (world.prolong n).next state response g = world.next state response g := by
  fun_induction World.next world state response g with
  | case1 => cases h
  | case2 state g phase phaseState hstate hphase move states line stimulus hmove =>
    obtain ⟨longer, hlonger, hnext⟩ := exists_phase_prolong hle hphase hmove
    have hshown : (longer.next phaseState response g).outcome = .ok (some (line, stimulus)) := by
      rw [hnext]
      exact hmove
    rw [next_of_shown hlonger hstate hshown, hnext]
  | case3 state g phase phaseState hstate hphase move states hmove hlt ih =>
    rw [next_of_advance ((getElem?_phases_prolong hlt).trans hphase) hstate hmove
      (by rwa [length_phases_prolong])]
    exact ih h
  | case4 => cases h
  | case5 => cases h

end World

/-! ## Runs -/

/-- Two partial sequences have the same values up to a step. -/
def AgreeUpTo {α : Type} (n : Nat) (values values' : Nat → Option α) : Prop :=
  ∀ k ≤ n, ∃ value, values k = some value ∧ values' k = some value

/-- A record is the beginning of another one, up to its last step. -/
structure Record.Begins (mechanism : Mechanism Float) (record later : Record) : Prop where
  stepCount : record.stepCount = record.history.size + 1
  history : record.history.toList <+: later.history.toList
  phase : AgreeUpTo record.history.size record.phaseOf? later.phaseOf?
  weight : ∀ element < mechanism.vocabulary.elementCount,
    ∀ behavior < mechanism.vocabulary.behaviorCount,
      AgreeUpTo record.history.size
        (fun k => (record.seriesV (mechanism.vocabulary.pair element behavior))[k]?)
        fun k => (later.seriesV (mechanism.vocabulary.pair element behavior))[k]?
  salience : mechanism.hasSalience = true → ∀ element < mechanism.vocabulary.elementCount,
    AgreeUpTo record.history.size (fun k => (record.seriesW element)[k]?)
      fun k => (later.seriesW element)[k]?
  noSalience : mechanism.hasSalience = false → ∀ element,
    record.seriesW element = [] ∧ later.seriesW element = []

/-- Two lists that are related to one list are related to each other. -/
theorem forall₂_of_common {α β γ : Type} {R : α → β → Prop} {S : α → γ → Prop} {T : β → γ → Prop}
    (h : ∀ a b c, R a b → S a c → T b c) {as : List α} {bs : List β} {cs : List γ}
    (hbs : List.Forall₂ R as bs) (hcs : List.Forall₂ S as cs) : List.Forall₂ T bs cs := by
  induction hbs generalizing cs with
  | nil =>
    cases hcs
    exact .nil
  | cons hab _ ih =>
    cases hcs with
    | cons hac hcs => exact .cons (h _ _ _ hab hac) (ih hcs)

namespace Run

variable (run : Run) (n : Nat)

/-- The run whose last phase ends with another count of the same key. -/
def prolong : Run := { run with world := run.world.prolong n }

@[simp] theorem setUp_prolong : (run.prolong n).setUp = run.setUp := by
  simp [setUp, prolong]

variable {run n} {apparatus : Apparatus} {seed : UInt64}

/-- The steps of a run are the first steps of the longer one. -/
theorem replay_prolong (hle : ∀ phase ∈ run.world.phases.getLast?, phase.ending.threshold ≤ n)
    {k : Nat} {subject : Subject} (h : run.replay apparatus seed k = some subject) :
    (run.prolong n).replay apparatus seed k = some subject := by
  induction k generalizing subject with
  | zero => exact h
  | succ k ih =>
    obtain ⟨before, emission, hbefore, hshown, rfl⟩ := exists_next_of_replay h
    have hnext : (run.prolong n).nextOf before = run.nextOf before :=
      World.next_prolong hle (Move.shown_eq_some.1 hshown)
    rw [replay, ih hbefore, Option.bind_some, stepSubject, hnext, hshown]
    rfl

/-! ## Records -/

variable {record later : Record}

/-- What the replay tells of the steps of a record, it tells of those steps in the longer run. -/
theorem agreeUpTo_prolong
    (hle : ∀ phase ∈ run.world.phases.getLast?, phase.ending.threshold ≤ n)
    (h : record.Traces run apparatus seed) {α : Type} {f : Subject → α}
    {values values' : Nat → Option α}
    (hvalues : ∀ k, values k = (run.replay apparatus seed k).map f)
    (hvalues' : ∀ k, values' k = ((run.prolong n).replay apparatus seed k).map f) :
    AgreeUpTo record.history.size values values' := by
  intro k hk
  obtain ⟨subject, hsubject⟩ := Option.isSome_iff_exists.1 ((h.isSome_iff k).2 hk)
  refine ⟨f subject, ?_, ?_⟩
  · rw [hvalues, hsubject, Option.map_some]
  · rw [hvalues', replay_prolong hle hsubject, Option.map_some]

theorem history_prefix_prolong
    (hle : ∀ phase ∈ run.world.phases.getLast?, phase.ending.threshold ≤ n)
    (h : record.Traces run apparatus seed) (hlater : later.Traces (run.prolong n) apparatus seed) :
    record.history.toList <+: later.history.toList := by
  refine List.prefix_iff_getElem?.2 fun k hk => ?_
  have hentry : record.history[k]? = some record.history.toList[k] := by
    rw [← Array.getElem?_toList, List.getElem?_eq_getElem hk]
  obtain ⟨subject, hsubject⟩ := Option.isSome_iff_exists.1 ((h.isSome_iff (k + 1)).2 hk)
  rw [h.entry, hsubject] at hentry
  rw [Array.getElem?_toList, hlater.entry, replay_prolong hle hsubject]
  exact hentry

/-- The record of a subject begins the record of that subject in the longer run. -/
theorem begins_prolong (hle : ∀ phase ∈ run.world.phases.getLast?, phase.ending.threshold ≤ n)
    (h : record.Traces run apparatus seed) (hlater : later.Traces (run.prolong n) apparatus seed) :
    record.Begins run.mechanism later where
  stepCount := h.stepCount_eq
  history := history_prefix_prolong hle h hlater
  phase := agreeUpTo_prolong hle h h.phase hlater.phase
  weight _ helement _ hbehavior :=
    agreeUpTo_prolong hle h (h.weight helement hbehavior) (hlater.weight helement hbehavior)
  salience hsalience _ helement :=
    agreeUpTo_prolong hle h (h.salience hsalience helement) (hlater.salience hsalience helement)
  noSalience hsalience element :=
    ⟨h.noSalience hsalience element, hlater.noSalience hsalience element⟩

/-- A run whose last phase ends with a lower count gives, for every subject, the beginning of what
the run gives whose last phase ends with a higher count of the same key. -/
theorem begins_of_simulate_prolong
    (hle : ∀ phase ∈ run.world.phases.getLast?, phase.ending.threshold ≤ n) {g g' g'' : Generator}
    {budget budget' : Nat} {short long : RunRecord}
    (hshort : run.simulate budget g = .ok (short, g'))
    (hlong : (run.prolong n).simulate budget' g = .ok (long, g'')) :
    List.Forall₂ (Record.Begins run.mechanism) short.subjects long.subjects := by
  have htraces := traces_of_simulate hshort
  have htraces' := traces_of_simulate hlong
  rw [setUp_prolong] at htraces'
  refine forall₂_of_common ?_ htraces htraces'
  intro seed record later hrecord hlater
  exact begins_prolong hle hrecord hlater

/-- Three pairings begin with two of them. -/
theorem begins_of_simulate_prolong_pairings :
    (∀ phase ∈ pairings.world.phases.getLast?, phase.ending.threshold ≤ 3) ∧
      ∃ short g' long g'', pairings.simulate 5 ⟨1⟩ = .ok (short, g') ∧
        (pairings.prolong 3).simulate 7 ⟨1⟩ = .ok (long, g'') ∧
        short.subjects.map Record.stepCount = [5, 5] ∧
        long.subjects.map Record.stepCount = [7, 7] ∧
        List.Forall₂ (Record.Begins pairings.mechanism) short.subjects long.subjects := by
  have hle : ∀ phase ∈ pairings.world.phases.getLast?, phase.ending.threshold ≤ 3 := by
    intro phase hphase
    cases hphase
    decide
  have hcounts : ((pairings.simulate 5 ⟨1⟩).toOption.map fun x =>
      x.1.subjects.map Record.stepCount) = some [5, 5] := by decide +kernel
  have hcounts' : (((pairings.prolong 3).simulate 7 ⟨1⟩).toOption.map fun x =>
      x.1.subjects.map Record.stepCount) = some [7, 7] := by decide +kernel
  obtain ⟨⟨short, g'⟩, hshort, hfive⟩ := Option.map_eq_some_iff.1 hcounts
  obtain ⟨⟨long, g''⟩, hlong, hseven⟩ := Option.map_eq_some_iff.1 hcounts'
  have hshort' := eq_ok_of_toOption_eq_some hshort
  have hlong' := eq_ok_of_toOption_eq_some hlong
  exact ⟨hle, short, g', long, g'', hshort', hlong', hfive, hseven,
    begins_of_simulate_prolong hle hshort' hlong'⟩

end Run

end Conditioning
