import Conditioning.Proofs.Mechanism.Frame
import Conditioning.Proofs.Mechanism.Responses
import Conditioning.Proofs.Vocabulary

/-!
# Settings that fit their vocabulary

The settings of a script become tables with a cell for each element, each behavior
or each pair, and every element is left with a behavior
(`Configuration.wellFormed_of_ofParameters`).  A stimulus of declared elements
therefore has a possible behavior, and the response to it is one of them whatever
the weights are, numbers or not (`Mechanism.respond_mem`).
-/

namespace Conditioning

/-! ## Choosing from what there is -/

namespace Choice

variable {α : Type} [Scalar α]

theorem lastPositive_lt {ws : List α} (h : ws ≠ []) : lastPositive ws < ws.length := by
  induction ws with
  | nil => exact absurd rfl h
  | cons w ws ih =>
    rw [lastPositive, List.length_cons]
    split
    next hany =>
      have hne : ws ≠ [] := by
        rintro rfl
        cases hany
      exact Nat.succ_lt_succ (ih hne)
    next => exact Nat.succ_pos _

/-- Whatever the weights are, the index chosen is one of theirs. -/
theorem weighted_lt {ws : List α} (h : ws ≠ []) (r : α) : weighted ws r < ws.length := by
  rw [weighted]
  cases hpassing : passing (r * Scalar.sum ws) Scalar.zero ws with
  | none => exact lastPositive_lt h
  | some i => exact passing_lt hpassing

end Choice

/-! ## Stimuli -/

/-- A stimulus shows some elements, all of them declared. -/
structure Stimulus.Declared (stimulus : Stimulus) (vocabulary : Vocabulary) : Prop where
  ne_nil : stimulus.elements ≠ []
  lt : ∀ element ∈ stimulus.elements, element < vocabulary.elementCount

/-! ## Settings -/

/-- Every table has a cell for all that it is asked for, and every element has a behavior. -/
structure Configuration.WellFormed {α : Type} (config : Configuration α) : Prop where
  startV : config.startV.size = config.vocabulary.pairCount
  utility : config.utility.size = config.vocabulary.elementCount
  cost : config.cost.size = config.vocabulary.behaviorCount
  alphaV : config.alphaV.size = config.vocabulary.pairCount
  alphaW : config.alphaW.size = config.vocabulary.elementCount
  omitLearning : config.omitLearning.size = config.vocabulary.elementCount
  feasible : config.response.feasible.size = config.vocabulary.elementCount
  row_ne_nil : ∀ row ∈ config.response.feasible, row ≠ []
  declares : config.Declares

namespace Configuration.WellFormed

variable {α : Type} {config : Configuration α}

theorem feasibleFor?_eq (h : config.WellFormed) {element : ElementId}
    (helement : element < config.vocabulary.elementCount) :
    config.response.feasible[element]? = some (config.response.feasibleFor element) := by
  have hlt : element < config.response.feasible.size := h.feasible ▸ helement
  rw [ResponseModel.feasibleFor, Array.getD_eq_getD_getElem?, Array.getElem?_eq_getElem hlt]
  rfl

theorem feasibleFor_ne_nil (h : config.WellFormed) {element : ElementId}
    (helement : element < config.vocabulary.elementCount) :
    config.response.feasibleFor element ≠ [] :=
  h.row_ne_nil _ (Array.mem_of_getElem? (h.feasibleFor?_eq helement))

theorem feasibleBehaviors_ne_nil (h : config.WellFormed) {stimulus : Stimulus}
    (hstimulus : stimulus.Declared config.vocabulary) :
    config.response.feasibleBehaviors stimulus.elements ≠ [] := by
  obtain ⟨element, helement⟩ := List.exists_mem_of_ne_nil _ hstimulus.ne_nil
  obtain ⟨behavior, hbehavior⟩ :=
    List.exists_mem_of_ne_nil _ (h.feasibleFor_ne_nil (hstimulus.lt element helement))
  exact List.ne_nil_of_mem
    (ResponseModel.mem_feasibleBehaviors.2 ⟨element, helement, hbehavior⟩)

end Configuration.WellFormed

namespace Mechanism

variable {α : Type} [Scalar α] {m : Mechanism α}

/-- The response to a stimulus with a possible behavior is one of those that have a score. -/
theorem getElem?_respond_of_ne_nil {stimulus : Stimulus}
    (hne : m.config.response.feasibleBehaviors stimulus.elements ≠ []) (l : Learner α) (r : α) :
    ((m.scores l stimulus).map Prod.fst)[Choice.weighted ((m.scores l stimulus).map Prod.snd) r]? =
      some (m.respond l stimulus r) := by
  have hscores : (m.scores l stimulus).map Prod.snd ≠ [] := by
    intro hnil
    refine hne ?_
    rw [← ResponseModel.map_fst_scores _ _ (m.weight l), List.map_eq_nil_iff]
    exact List.map_eq_nil_iff.1 hnil
  have hlt : Choice.weighted ((m.scores l stimulus).map Prod.snd) r <
      ((m.scores l stimulus).map Prod.fst).length := by
    simpa using Choice.weighted_lt hscores r
  rw [respond, List.getD_eq_getElem?_getD, List.getElem?_eq_getElem hlt, Option.getD_some]

/-- The response to a stimulus with a possible behavior is possible, whatever was learned. -/
theorem respond_mem_of_ne_nil {stimulus : Stimulus}
    (hne : m.config.response.feasibleBehaviors stimulus.elements ≠ []) (l : Learner α) (r : α) :
    m.respond l stimulus r ∈ m.config.response.feasibleBehaviors stimulus.elements := by
  rw [← ResponseModel.map_fst_scores _ _ (m.weight l)]
  exact List.mem_of_getElem? (getElem?_respond_of_ne_nil hne l r)

/-- The response to declared elements is one of those that have a score. -/
theorem getElem?_respond (hm : m.config.WellFormed) {stimulus : Stimulus}
    (hstimulus : stimulus.Declared m.vocabulary) (l : Learner α) (r : α) :
    ((m.scores l stimulus).map Prod.fst)[Choice.weighted ((m.scores l stimulus).map Prod.snd) r]? =
      some (m.respond l stimulus r) :=
  getElem?_respond_of_ne_nil (hm.feasibleBehaviors_ne_nil hstimulus) l r

/-- The response to declared elements is possible for one of them, whatever was learned. -/
theorem respond_mem (hm : m.config.WellFormed) {stimulus : Stimulus}
    (hstimulus : stimulus.Declared m.vocabulary) (l : Learner α) (r : α) :
    m.respond l stimulus r ∈ m.config.response.feasibleBehaviors stimulus.elements :=
  respond_mem_of_ne_nil (hm.feasibleBehaviors_ne_nil hstimulus) l r

end Mechanism

/-! ## Learners -/

/-- The tables of a learner have a cell for all that they are asked for, and its last step was
with declared elements and a declared behavior. -/
structure Learner.Fits {α : Type} (l : Learner α) (vocabulary : Vocabulary) : Prop where
  v : l.v.size = vocabulary.pairCount
  w : l.w.size = vocabulary.elementCount
  previous : ∀ (stimulus : Stimulus) (response : BehaviorId),
    l.previous = some (stimulus, response) →
      stimulus.Declared vocabulary ∧ response < vocabulary.behaviorCount

namespace Mechanism

variable {α : Type} [Scalar α] {m : Mechanism α}

theorem fits_start (hm : m.config.WellFormed) : m.start.Fits m.vocabulary :=
  ⟨hm.startV, Table.size_fill _ _, fun _ _ h => by cases h⟩

theorem respond_lt (hm : m.config.WellFormed) {stimulus : Stimulus}
    (hstimulus : stimulus.Declared m.vocabulary) (l : Learner α) (r : α) :
    m.respond l stimulus r < m.vocabulary.behaviorCount :=
  hm.declares.lt_of_mem (respond_mem hm hstimulus l r)

theorem previous_learn (l : Learner α) (stimulus : Stimulus) :
    (m.learn l stimulus).previous = l.previous := by
  rcases m.learn_cases l stimulus with hlearn | ⟨before, response, -, hlearn⟩ <;> rw [hlearn]
  rfl

theorem fits_learn {l : Learner α} (hl : l.Fits m.vocabulary) (stimulus : Stimulus) (r : α) :
    (m.learn l stimulus).Fits m.vocabulary where
  v := (m.size_v_step l stimulus r).trans hl.v
  w := (m.size_w_step l stimulus r).trans hl.w
  previous := by
    rw [previous_learn]
    exact hl.previous

theorem fits_step (hm : m.config.WellFormed) {l : Learner α} (hl : l.Fits m.vocabulary)
    {stimulus : Stimulus} (hstimulus : stimulus.Declared m.vocabulary) (r : α) :
    (m.step l stimulus r).2.Fits m.vocabulary where
  v := (m.size_v_step l stimulus r).trans hl.v
  w := (m.size_w_step l stimulus r).trans hl.w
  previous := by
    intro before response h
    cases h
    exact ⟨hstimulus, respond_lt hm hstimulus _ r⟩

end Mechanism

/-! ## The settings of a script -/

namespace Configuration

theorem size_foldl_put (listed : List (Nat × Float)) (t : Table Float) :
    (listed.foldl (fun t cell => t.put cell.1 cell.2) t).size = t.size := by
  induction listed generalizing t with
  | nil => rfl
  | cons cell listed ih => rw [List.foldl_cons, ih, Table.size_put]

theorem size_assemble (size : Nat) (rest : Float) (listed : List (Nat × Float)) :
    (assemble size rest listed).size = size := by
  rw [assemble, size_foldl_put, Table.size_fill]

theorem size_of_expand {setting : Option Literal} {parameter : String} {size : Nat}
    {fallback : Float} {coverage : Coverage} {slot : Literal → Except Error Nat} {t : Table Float}
    (h : expand setting parameter size fallback coverage slot = .ok t) : t.size = size := by
  unfold expand at h
  split at h
  next =>
    cases h
    exact Table.size_fill _ _
  next =>
    split at h
    next =>
      cases h
      exact Table.size_fill _ _
    next => cases h
    next =>
      obtain ⟨rest, -, h⟩ := bind_eq_ok.1 h
      obtain ⟨listed, -, h⟩ := bind_eq_ok.1 h
      split at h
      next =>
        cases h
        exact size_assemble _ _ _
      next => cases h
      next =>
        split at h
        next =>
          cases h
          exact size_assemble _ _ _
        next => cases h

variable {vocabulary : Vocabulary} {p : Parameters}

theorem size_foldl_mark (elements : List ElementId) (marks : Array Bool) :
    (elements.foldl (fun marks element => marks.setIfInBounds element true) marks).size =
      marks.size := by
  induction elements generalizing marks with
  | nil => rfl
  | cons element elements ih => rw [List.foldl_cons, ih, Array.size_setIfInBounds]

theorem size_of_omitted {marks : Array Bool} (h : omitted vocabulary p = .ok marks) :
    marks.size = vocabulary.elementCount := by
  unfold omitted at h
  split at h
  next =>
    cases h
    exact Array.size_replicate
  next =>
    unfold markOmitted at h
    split at h
    next => cases h
    next =>
      obtain ⟨elements, -, h⟩ := bind_eq_ok.1 h
      cases h
      rw [size_foldl_mark, Array.size_replicate]

theorem behaviorCount_pos {elements behaviors : List String}
    (h : Vocabulary.ofNames elements behaviors = .ok vocabulary) :
    0 < vocabulary.behaviorCount := by
  obtain ⟨hnames, rfl⟩ := Vocabulary.ofNames_eq_ok_iff.1 h
  exact List.length_pos_iff.2 hnames.behaviors_ne_nil

/-- A vocabulary that was declared can be declared again. -/
theorem ofNames_of_ofNames {elements behaviors : List String}
    (h : Vocabulary.ofNames elements behaviors = .ok vocabulary) :
    Vocabulary.ofNames vocabulary.elements vocabulary.behaviors = .ok vocabulary := by
  obtain ⟨-, rfl⟩ := Vocabulary.ofNames_eq_ok_iff.1 h
  exact h

/-- The names of a configuration were found fit to be declared. -/
theorem declared_of_ofParameters {config : Configuration Float} (h : ofParameters p = .ok config) :
    Vocabulary.ofNames config.vocabulary.elements config.vocabulary.behaviors =
      .ok config.vocabulary := by
  obtain ⟨elements, -, hnames⟩ := bind_eq_ok.1 (readFrom_of_ofParameters h).vocabulary
  obtain ⟨behaviors, -, hnames⟩ := bind_eq_ok.1 hnames
  exact ofNames_of_ofNames hnames

/-- Requirements leave every element with a behavior, or they are refused. -/
theorem rows_of_possible {feasible : Array (List BehaviorId)}
    (hpos : 0 < vocabulary.behaviorCount) (h : possible vocabulary p = .ok feasible) :
    feasible.size = vocabulary.elementCount ∧ ∀ row ∈ feasible, row ≠ [] := by
  unfold possible at h
  split at h
  next =>
    cases h
    refine ⟨Array.size_replicate, fun row hrow hnil => ?_⟩
    rw [(Array.mem_replicate.1 hrow).2, List.range_eq_nil] at hnil
    exact Nat.ne_of_gt hpos hnil
  next =>
    unfold invertRequirements at h
    split at h
    next => cases h
    next =>
      obtain ⟨rows, -, h⟩ := bind_eq_ok.1 h
      simp only at h
      split at h
      next => cases h
      next hnone =>
        cases h
        refine ⟨by simp [invertRows], fun row hrow hnil => ?_⟩
        rw [List.idxOf?_eq_none_iff] at hnone
        exact hnone (hnil ▸ List.mem_toArray.1 hrow)

theorem wellFormed_of_ofParameters {config : Configuration Float}
    (h : ofParameters p = .ok config) : config.WellFormed := by
  have hread := readFrom_of_ofParameters h
  have hpos := behaviorCount_pos (declared_of_ofParameters h)
  obtain ⟨hsize, hrows⟩ := rows_of_possible hpos hread.feasible
  exact ⟨size_of_expand hread.startV, size_of_expand hread.utility, size_of_expand hread.cost,
    size_of_expand hread.alphaV, size_of_expand hread.alphaW, size_of_omitted hread.omitLearning,
    hsize, hrows, declares_of_ofParameters h⟩

end Configuration

/-- Whatever the settings of a script are, the tables fit the vocabulary. -/
theorem Mechanism.wellFormed_of_ofParameters {p : Parameters} {m : Mechanism Float}
    (h : Mechanism.ofParameters p = .ok m) : m.config.WellFormed :=
  Configuration.wellFormed_of_ofParameters (Mechanism.configuration_of_ofParameters h)

end Conditioning
