import Conditioning.Proofs.Mechanism.WellFormed
import Conditioning.Proofs.Run.Replay
import Conditioning.Proofs.Vocabulary

/-!
# What a step learns

A step that learns computes the errors of its rule (`Rule.errors`) from sums over the
stimulus before and the one that appears (`Mechanism.sums`), all of them read off the
tables as they were.  The weights of the elements before, with the response to them,
move by one error, and the saliences of the same elements by the other if the rule
keeps saliences.  Every element has its own learning rate, and if none of them is named
twice each moves once.  Nothing else changes (`Mechanism.follows_rule`).

The settings are no part of what a step changes: it takes a learner and gives one.
-/

namespace Conditioning

/-! ## Cells that get a share each -/

namespace Table

variable {α : Type} [Scalar α]

/-- Add to each of some cells its share. -/
def addEach (t : Table α) (cells : List Nat) (share : Nat → α) : Table α :=
  cells.foldl (fun t i => t.add i (share i)) t

/-- Cells that are named once get their share once, and the others nothing. -/
theorem read_addEach (t : Table α) {cells : List Nat} (hnodup : cells.Nodup)
    (hlt : ∀ i ∈ cells, i < t.size) (share : Nat → α) (i : Nat) :
    (t.addEach cells share).read i = if i ∈ cells then t.read i + share i else t.read i := by
  induction cells generalizing t with
  | nil => rfl
  | cons cell cells ih =>
    obtain ⟨hcell, hcells⟩ := List.forall_mem_cons.1 hlt
    obtain ⟨hnew, hnodup⟩ := List.nodup_cons.1 hnodup
    show ((t.add cell (share cell)).addEach cells share).read i = _
    rw [ih _ hnodup (by simpa using hcells)]
    by_cases hi : i = cell
    · subst hi
      rw [if_neg hnew, if_pos List.mem_cons_self, t.read_add_self _ hcell]
    · rw [t.read_add_of_ne _ (Ne.symm hi)]
      simp only [List.mem_cons, hi, false_or]

end Table

/-! ## The errors of the rules -/

/-- What the errors of a step depend on. -/
structure Sums (α : Type) where
  /-- The utilities of the elements that appear. -/
  utility : α
  /-- The weights of the elements before with the response to them. -/
  valueBefore : α
  /-- The saliences of the elements that appear. -/
  salience : α
  /-- The saliences of the elements before. -/
  salienceBefore : α
  /-- The cost of the response. -/
  cost : α
  /-- The greatest of the elements that appear, each valued by the weights of the behaviors that are
  possible for it. -/
  bestFuture : α
  /-- The elements that appear, each valued by the weights of the behaviors that are possible for it
  in proportion to their probabilities. -/
  expectedFuture : α

/-- The errors of the weights and, where a rule keeps saliences, of the saliences. -/
def Rule.errors {α : Type} [Scalar α] (rule : Rule) (s : Sums α) : α × Option α :=
  match rule with
  | .rescorlaWagner => (s.utility - s.valueBefore - s.cost, none)
  | .qLearning => (s.utility + s.bestFuture - s.valueBefore - s.cost, none)
  | .expectedSarsa => (s.utility + s.expectedFuture - s.valueBefore - s.cost, none)
  | .actorCritic =>
    (s.utility + s.salience - s.cost - s.salienceBefore,
      some (s.utility + s.salience - s.cost - s.salienceBefore))
  | .enquist =>
    (s.utility + s.salience - s.cost - s.valueBefore,
      some (s.utility + s.salience - s.cost - s.salienceBefore))

/-- A member of a list whose keys differ is found under its key. -/
theorem find?_eq_some_of_mem {α β : Type} [BEq α] [LawfulBEq α] {xs : List (α × β)}
    (hnodup : (xs.map Prod.fst).Nodup) {x : α × β} (h : x ∈ xs) :
    xs.find? (fun y => y.1 == x.1) = some x := by
  induction xs with
  | nil => cases h
  | cons y ys ih =>
    obtain ⟨hy, hnodup⟩ := List.nodup_cons.1 hnodup
    rw [List.find?_cons]
    rcases List.mem_cons.1 h with rfl | h
    · rw [beq_self_eq_true]
    · have hne : (y.1 == x.1) = false := by
        rw [beq_eq_false_iff_ne]
        intro he
        exact hy (he ▸ List.mem_map_of_mem h)
      rw [hne]
      exact ih hnodup h

/-- The probability of a behavior that has a score is its share of all scores. -/
theorem ResponseModel.probability_of_mem_scores {α : Type} [Scalar α] {model : ResponseModel α}
    {elements : List ElementId} {v : ElementId → BehaviorId → α} {score : BehaviorId × α}
    (h : score ∈ model.scores elements v) :
    model.probability elements score.1 v = score.2 / totalScore (model.scores elements v) := by
  have hnodup : ((model.scores elements v).map Prod.fst).Nodup := by
    rw [map_fst_scores]
    exact nodup_firstOccurrences _
  simp only [probability, find?_eq_some_of_mem hnodup h]

namespace Mechanism

variable {α : Type} [Scalar α] (m : Mechanism α)

/-- The sums over a stimulus before, the response to it and a stimulus that appears. -/
def sums (l : Learner α) (before : Stimulus) (response : BehaviorId) (stimulus : Stimulus) :
    Sums α where
  utility := Scalar.sum (stimulus.elements.map m.config.utility.read)
  valueBefore := Scalar.sum (before.elements.map fun element => m.weight l element response)
  salience := Scalar.sum (stimulus.elements.map l.w.read)
  salienceBefore := Scalar.sum (before.elements.map l.w.read)
  cost := m.config.cost.read response
  bestFuture := Scalar.greatest (stimulus.elements.map fun element =>
    Scalar.sum ((m.config.response.feasibleFor element).map (m.weight l element)))
  expectedFuture := Scalar.sum (stimulus.elements.map fun element =>
    Scalar.sum ((m.config.response.feasibleBehaviors [element]).map fun behavior =>
      m.probability l ⟨[element]⟩ behavior * m.weight l element behavior))

/-- The errors of a step. -/
def errors (l : Learner α) (before : Stimulus) (response : BehaviorId) (stimulus : Stimulus) :
    α × Option α :=
  m.rule.errors (m.sums l before response stimulus)

theorem expectedValue_eq (l : Learner α) (element : ElementId) :
    m.expectedValue l element =
      Scalar.sum ((m.config.response.feasibleBehaviors [element]).map fun behavior =>
        m.probability l ⟨[element]⟩ behavior * m.weight l element behavior) := by
  rw [← ResponseModel.map_fst_scores _ _ (m.weight l), List.map_map]
  refine congrArg Scalar.sum (List.map_congr_left fun score hscore => ?_)
  rw [Function.comp_apply, probability, ResponseModel.probability_of_mem_scores hscore]

variable (l : Learner α) (before stimulus : Stimulus) (response : BehaviorId)

theorem weightError_eq :
    m.weightError l before response stimulus = (m.errors l before response stimulus).1 := by
  have hexpected : m.expectedFuture l stimulus =
      (m.sums l before response stimulus).expectedFuture := by
    rw [expectedFuture, funext (m.expectedValue_eq l)]
    rfl
  simp only [weightError, hexpected, errors]
  cases m.rule <;> rfl

/-- Where a rule keeps saliences, their error is that of the rule. -/
theorem errors_snd : (m.errors l before response stimulus).2 =
    if m.hasSalience then some (m.salienceError l before response stimulus) else none := by
  obtain ⟨rule, config⟩ := m
  cases rule <;> rfl

/-! ## Learners that steps lead to -/

/-- A stimulus that can be responded to: its elements are declared, and a behavior is possible. -/
structure Answers (m : Mechanism α) (stimulus : Stimulus) : Prop where
  lt : ∀ element ∈ stimulus.elements, element < m.vocabulary.elementCount
  feasible : m.config.response.feasibleBehaviors stimulus.elements ≠ []

/-- The learners that steps and resets lead to. -/
inductive Reachable (m : Mechanism α) : Learner α → Prop where
  | start : Reachable m m.start
  | step {l : Learner α} (h : Reachable m l) {stimulus : Stimulus} (hstimulus : m.Answers stimulus)
      (r : α) : Reachable m (m.step l stimulus r).2
  | reset {l : Learner α} (h : Reachable m l) : Reachable m (m.reset l)

variable {m} {l : Learner α}

omit [Scalar α] in
theorem Answers.declared {stimulus : Stimulus} (h : m.Answers stimulus) :
    stimulus.Declared m.vocabulary where
  ne_nil := by
    intro hnil
    refine h.feasible ?_
    rw [hnil]
    rfl
  lt := h.lt

theorem Reachable.fits (h : m.Reachable l)
    (hstartV : m.config.startV.size = m.vocabulary.pairCount) (hdeclares : m.config.Declares) :
    l.Fits m.vocabulary := by
  induction h with
  | start => exact ⟨hstartV, Table.size_fill _ _, fun _ _ h => by cases h⟩
  | @step l _ stimulus hstimulus r ih =>
    refine ⟨(m.size_v_step l stimulus r).trans ih.v, (m.size_w_step l stimulus r).trans ih.w, ?_⟩
    intro before response h
    cases h
    exact ⟨hstimulus.declared,
      hdeclares.lt_of_mem (respond_mem_of_ne_nil hstimulus.feasible _ r)⟩
  | reset _ ih =>
    exact ⟨hstartV, (Table.size_refill _ _).trans ih.w, fun _ _ h => by cases h⟩

/-- Saliences that are not kept stay as they are. -/
theorem w_step_of_not_hasSalience (hsalience : m.hasSalience = false) (l : Learner α)
    (stimulus : Stimulus) (r : α) : (m.step l stimulus r).2.w = l.w := by
  show (m.learn l stimulus).w = l.w
  rcases m.learn_cases l stimulus with hlearn | ⟨before, response, -, hlearn⟩
  · rw [hlearn]
  · rw [hlearn, update, hsalience]
    rfl

/-- Saliences that are not kept are zero for good. -/
theorem Reachable.read_w (h : m.Reachable l) (hsalience : m.hasSalience = false)
    (element : ElementId) : l.w.read element = Scalar.zero := by
  have hfill (n : Nat) : (Table.fill n (Scalar.zero : α)).read element = Scalar.zero := by
    rw [Table.read_fill, ite_self]
  induction h with
  | start => exact hfill _
  | step _ _ r ih => rw [w_step_of_not_hasSalience hsalience, ih]
  | @reset l _ _ =>
    have hrefill : l.w.refill Scalar.zero = Table.fill l.w.size (Scalar.zero : α) := by
      rw [Table.refill, Array.map_const']
      rfl
    show (l.w.refill Scalar.zero).read element = _
    rw [hrefill, hfill]

/-! ## A step -/

/-- A stimulus that suppresses learning shows an element that does. -/
def Suppressed (m : Mechanism α) (stimulus : Stimulus) : Prop :=
  ∃ element ∈ stimulus.elements, m.config.omitLearning.getD element false = true

omit [Scalar α] in
theorem suppresses_iff {stimulus : Stimulus} :
    m.suppresses stimulus = true ↔ m.Suppressed stimulus :=
  List.any_eq_true

/-- What a stimulus and the response to it make of a learner. -/
structure Follows (m : Mechanism α) (l : Learner α) (stimulus : Stimulus) (response : BehaviorId)
    (later : Learner α) : Prop where
  previous : later.previous = some (stimulus, response)
  size_v : later.v.size = l.v.size
  size_w : later.w.size = l.w.size
  /-- Nothing is learned on the first step, nor when learning is suppressed. -/
  unchanged : l.previous = none ∨ m.Suppressed stimulus → later.v = l.v ∧ later.w = l.w
  /-- The elements before move with the response to them, and no other weight does. -/
  weight : ∀ before done, l.previous = some (before, done) → before.elements.Nodup →
    ¬m.Suppressed stimulus → ∀ element < m.vocabulary.elementCount,
      ∀ behavior < m.vocabulary.behaviorCount, m.weight later element behavior =
        if element ∈ before.elements ∧ behavior = done then
          m.weight l element behavior +
            m.config.alphaV.read (m.vocabulary.pair element behavior) *
              (m.errors l before done stimulus).1
        else m.weight l element behavior
  /-- The elements before move if saliences are kept, and no other salience does. -/
  salience : ∀ before done, l.previous = some (before, done) → before.elements.Nodup →
    ¬m.Suppressed stimulus → ∀ element < m.vocabulary.elementCount, later.w.read element =
      match (m.errors l before done stimulus).2 with
      | some error =>
        if element ∈ before.elements then
          l.w.read element + m.config.alphaW.read element * error
        else l.w.read element
      | none => l.w.read element
  noSalience : m.hasSalience = false → ∀ element, later.w.read element = Scalar.zero

section

variable {before stimulus : Stimulus} {response done : BehaviorId}

theorem moveWeights_eq (v : Table α) (elements : List ElementId) (error : α) :
    m.moveWeights v elements response error =
      v.addEach (m.pairCells response elements) fun pair =>
        m.config.alphaV.read pair * error := by
  rw [Table.addEach, pairCells, List.foldl_map]
  rfl

omit [Scalar α] in
theorem mem_pairCells (hdone : done < m.vocabulary.behaviorCount) {element : ElementId}
    {behavior : BehaviorId} (hbehavior : behavior < m.vocabulary.behaviorCount)
    {elements : List ElementId} :
    m.vocabulary.pair element behavior ∈ m.pairCells done elements ↔
      element ∈ elements ∧ behavior = done := by
  simp only [pairCells, List.mem_map, Vocabulary.pair_eq_pair_iff hdone hbehavior]
  constructor
  · rintro ⟨_, helement, rfl, rfl⟩
    exact ⟨helement, rfl⟩
  · rintro ⟨helement, rfl⟩
    exact ⟨element, helement, rfl, rfl⟩

omit [Scalar α] in
theorem nodup_pairCells (hdone : done < m.vocabulary.behaviorCount) {elements : List ElementId}
    (hnodup : elements.Nodup) : (m.pairCells done elements).Nodup :=
  List.Nodup.map (fun _ _ h => ((Vocabulary.pair_eq_pair_iff hdone hdone).1 h).1) hnodup

theorem learn_of_previous (hprevious : l.previous = some (before, done))
    (hsuppressed : ¬m.Suppressed stimulus) :
    m.learn l stimulus = m.update l before done stimulus := by
  rw [← suppresses_iff] at hsuppressed
  rw [learn, if_neg hsuppressed, hprevious]

theorem learn_of_unchanged (h : l.previous = none ∨ m.Suppressed stimulus) :
    m.learn l stimulus = l := by
  rw [learn]
  split
  next => rfl
  next hsuppresses =>
    rw [suppresses_iff] at hsuppresses
    rw [h.resolve_right hsuppresses]

/-- A learner whose tables have the cells it needs moves the weights of the elements before. -/
theorem weight_update (hl : l.Fits m.vocabulary) (hprevious : l.previous = some (before, done))
    (hnodup : before.elements.Nodup) (stimulus : Stimulus) (element : ElementId)
    {behavior : BehaviorId} (hbehavior : behavior < m.vocabulary.behaviorCount) :
    m.weight (m.update l before done stimulus) element behavior =
      if element ∈ before.elements ∧ behavior = done then
        m.weight l element behavior +
          m.config.alphaV.read (m.vocabulary.pair element behavior) *
            (m.errors l before done stimulus).1
      else m.weight l element behavior := by
  obtain ⟨hbefore, hdone⟩ := hl.previous before done hprevious
  have hcells : ∀ i ∈ m.pairCells done before.elements, i < l.v.size := by
    intro i hi
    obtain ⟨e, he, rfl⟩ := List.mem_map.1 hi
    rw [hl.v]
    exact m.vocabulary.pair_lt (hbefore.lt e he) hdone
  show (m.moveWeights l.v before.elements done _).read _ = _
  rw [moveWeights_eq, Table.read_addEach _ (nodup_pairCells hdone hnodup) hcells, weightError_eq]
  simp only [mem_pairCells hdone hbehavior]
  rfl

/-- A learner whose tables have the cells it needs moves the saliences of the elements before, if it
keeps any. -/
theorem read_w_update (hl : l.Fits m.vocabulary) (hprevious : l.previous = some (before, done))
    (hnodup : before.elements.Nodup) (stimulus : Stimulus) (element : ElementId) :
    (m.update l before done stimulus).w.read element =
      match (m.errors l before done stimulus).2 with
      | some error =>
        if element ∈ before.elements then
          l.w.read element + m.config.alphaW.read element * error
        else l.w.read element
      | none => l.w.read element := by
  obtain ⟨hbefore, -⟩ := hl.previous before done hprevious
  have hcells : ∀ e ∈ before.elements, e < l.w.size := fun e he => hl.w ▸ hbefore.lt e he
  rw [update, errors_snd]
  split
  next => exact Table.read_addEach _ hnodup hcells _ element
  next => rfl

end

/-- Each step is exactly its rule: the errors are those of the rule on the tables before the step,
the elements before get their share of them, and nothing else changes but the last step that is
remembered. -/
theorem follows_rule (hstartV : m.config.startV.size = m.vocabulary.pairCount)
    (hdeclares : m.config.Declares) (hl : m.Reachable l) (stimulus : Stimulus) (r : α) :
    m.Follows l stimulus (m.step l stimulus r).1 (m.step l stimulus r).2 := by
  have hfits := hl.fits hstartV hdeclares
  refine ⟨rfl, m.size_v_step l stimulus r, m.size_w_step l stimulus r, ?_, ?_, ?_, ?_⟩
  · intro h
    show (m.learn l stimulus).v = l.v ∧ (m.learn l stimulus).w = l.w
    rw [learn_of_unchanged h]
    exact ⟨rfl, rfl⟩
  · intro before done hprevious hnodup hsuppressed element _ behavior hbehavior
    show m.weight (m.learn l stimulus) element behavior = _
    rw [learn_of_previous hprevious hsuppressed]
    exact weight_update hfits hprevious hnodup stimulus element hbehavior
  · intro before done hprevious hnodup hsuppressed element _
    show (m.learn l stimulus).w.read element = _
    rw [learn_of_previous hprevious hsuppressed]
    exact read_w_update hfits hprevious hnodup stimulus element
  · intro hsalience element
    rw [w_step_of_not_hasSalience hsalience, hl.read_w hsalience]

/-- A mechanism that keeps saliences, with a reward and rates of its own. -/
def rewarded : Mechanism Float where
  rule := .enquist
  config := { Configuration.default PhaseText.trialVocabulary with
    utility := ⟨#[0.0, 1.0]⟩
    alphaV := Table.fill 4 0.5
    alphaW := Table.fill 2 0.25 }

/-- A subject that was shown both elements twice sees the reward alone.  Whatever it did before, the
weights of both elements with this response move, and so do both saliences. -/
theorem follows_rule_rewarded :
    let l := (rewarded.step (rewarded.step rewarded.start ⟨[0, 1]⟩ 0.75).2 ⟨[1, 0]⟩ 0.25).2
    let later := (rewarded.step l ⟨[1]⟩ 0.5).2
    rewarded.Reachable l ∧ ∃ done error,
      l.previous = some (⟨[1, 0]⟩, done) ∧
      (rewarded.errors l ⟨[1, 0]⟩ done ⟨[1]⟩).2 = some error ∧
      (∀ element < 2, ∀ behavior < 2, rewarded.weight later element behavior =
        if behavior = done then rewarded.weight l element behavior +
          0.5 * (rewarded.errors l ⟨[1, 0]⟩ done ⟨[1]⟩).1
        else rewarded.weight l element behavior) ∧
      ∀ element < 2, later.w.read element = l.w.read element + 0.25 * error := by
  intro l later
  have hboth : rewarded.Answers ⟨[0, 1]⟩ := ⟨by decide, by decide⟩
  have hagain : rewarded.Answers ⟨[1, 0]⟩ := ⟨by decide, by decide⟩
  have hl : rewarded.Reachable l := (Reachable.start.step hboth 0.75).step hagain 0.25
  have hdeclares := Configuration.declares_default (α := Float) PhaseText.trialVocabulary
  have hfollows := follows_rule (m := rewarded) rfl hdeclares hl ⟨[1]⟩ 0.5
  obtain ⟨done, hprevious⟩ : ∃ done, l.previous = some (⟨[1, 0]⟩, done) := ⟨_, rfl⟩
  have hlearns : ¬rewarded.Suppressed ⟨[1]⟩ := by
    rintro ⟨element, helement, homitted⟩
    cases List.mem_singleton.1 helement
    cases homitted
  have hweight := hfollows.weight ⟨[1, 0]⟩ done hprevious (by decide) hlearns
  have hsalience := hfollows.salience ⟨[1, 0]⟩ done hprevious (by decide) hlearns
  have hshown : ∀ element < 2, element ∈ [1, 0] := by decide
  refine ⟨hl, done, _, hprevious, rfl, ?_, ?_⟩
  · intro element helement behavior hbehavior
    have hrate : ∀ i < 4, rewarded.config.alphaV.read i = 0.5 := by decide +kernel
    rw [hweight element helement behavior hbehavior,
      hrate _ (rewarded.vocabulary.pair_lt helement hbehavior)]
    simp only [hshown element helement, true_and]
  · intro element helement
    have hrate : ∀ e < 2, rewarded.config.alphaW.read e = 0.25 := by decide +kernel
    rw [hsalience element helement, hrate element helement]
    exact if_pos (hshown element helement)

end Mechanism

end Conditioning
