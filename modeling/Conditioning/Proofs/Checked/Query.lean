import Conditioning.Proofs.Cells
import Conditioning.Proofs.Checked.Run
import Conditioning.Proofs.Query.Policy
import Conditioning.Proofs.Query.Resolved
import Conditioning.Proofs.Query.Selection
import Mathlib.Data.Nat.SuccPred

/-!
# Checked queries

An answer is read from the record of a subject: cells of points, series at the
selected steps, a table of weights, and a table of counts with a cell for each step.
Here all of these are checked, and so are the ends of a span of steps.

The bounds come from what a record keeps (`Record.Complete`).  A step of the record
is a step of every series that is kept.  Every entry of the history has a step, and
the first item of a pattern has to meet a token of an entry; so each place that is
counted has a cell, and the place of the last token has the last one
(`stepCounts?_eq`).  The selected steps increase, so the span of each of them starts
after the step before and not behind its own end (`accumulate?_eq`).
-/

namespace Conditioning

/-! ## Series -/

namespace Record

variable (record : Record)

/-- The weight of a pair at every step. -/
def seriesV? (pair : Nat) : Option (List Float) := do
  let points ← record.v[pair]?
  return Point.series points record.stepCount

/-- The salience of an element at every step; empty if it was never noted. -/
def seriesW? (element : ElementId) : Option (List Float) := do
  let points ← record.w[element]?
  match points with
  | [] => return []
  | points => return Point.series points record.stepCount

end Record

/-- The values of a series at some steps. -/
def sampleAt? (steps : List Nat) (series : List Float) : Option (List Float) :=
  let cells := series.toArray
  steps.mapM fun k => cells[k]?

/-! ## Counts -/

/-- The tokens from a place on, which may be the end of the row. -/
def tokensFrom? (row : List Token) (place : Nat) : Option (List Token) :=
  if place ≤ row.length then some (row.drop place) else none

/-- Count the items at a place, if they meet the tokens from there on. -/
def countPlace? (exact : Bool) (items : List Item) (row : List Token) (counts : Array Nat)
    (place : Nat) : Option (Array Nat) := do
  let front ← tokensFrom? row place
  if meetsFront exact items front then modify? counts (stepOf place) (· + 1) else return counts

/-- The number of occurrences that start at each step.  They are counted place by place, as long as
there are as many tokens as items, in a table with a cell for each step. -/
def stepCounts? (exact : Bool) (items : List Item) (record : Record) : Option (Array Nat) :=
  let row := tokens record.history.toList
  let zeros := Array.replicate record.stepCount 0
  if row.length < items.length then some zeros
  else (List.range (row.length - items.length + 1)).foldlM (countPlace? exact items row) zeros

/-- The steps at which something was counted. -/
def selectCounted? (counts : Array Nat) (steps : List Nat) : Option (List Nat) :=
  steps.filterM fun k => counts[k]?.map fun count => decide (0 < count)

/-- The steps at which values are taken. -/
def selectedSteps? (run : RunRecord) (record : Record) (options : Options) :
    Option (Except Error (List Nat)) :=
  let steps := phaseSteps run record options.phases
  match options.steps with
  | none => some (.ok steps)
  | some pattern =>
    match pattern.resolve run.vocabulary with
    | .error error => some (.error error)
    | .ok items => do
      let counts ← stepCounts? options.exactSteps items record
      let selected ← selectCounted? counts steps
      return .ok selected

/-- The sum of the counts at the steps from `start` to `stop`, which has to be a step of the table.
There may be none of them, but `start` may not lie further behind. -/
def spanSum? (counts : Array Nat) (start stop : Nat) : Option Nat :=
  if start ≤ stop + 1 ∧ stop < counts.size then some (spanSum counts start stop) else none

/-- The count that a selected step stands for. -/
def spanAt? (counts : Array Nat) (sampled : Bool) (start stop : Nat) : Option Nat :=
  if sampled then spanSum? counts start stop else counts[stop]?

/-- The counts at selected steps. -/
def accumulate? (counts : Array Nat) (sampled cumulative : Bool) (start total : Nat) :
    List Nat → Option (List Nat)
  | [] => some []
  | k :: steps => do
    let span ← spanAt? counts sampled start k
    let later ← accumulate? counts sampled cumulative (k + 1) (total + span) steps
    return (if cumulative then total + span else span) :: later

/-- The counts of items at some steps. -/
def countSeries? (record : Record) (options : Options) (steps : List Nat) (items : List Item) :
    Option (List Nat) := do
  let counts ← stepCounts? options.exactN items record
  accumulate? counts options.steps.isSome options.cumulative 0 0 steps

/-! ## Probabilities -/

/-- The series of the weights of an element. -/
def weightRow? (run : RunRecord) (record : Record) (element : ElementId) :
    Option (List (Array Float)) :=
  (List.range run.vocabulary.behaviorCount).mapM fun behavior => do
    let pair ← run.vocabulary.pair? element behavior
    let series ← record.seriesV? pair
    return series.toArray

/-- The series of the weights of some elements. -/
def weightTable? (run : RunRecord) (record : Record) (elements : List ElementId) :
    Option (Array (Array Float)) := do
  let rows ← elements.mapM (weightRow? run record)
  return rows.flatten.toArray

/-- The weight at a step, from the table of some elements. -/
def tableWeight? (run : RunRecord) (elements : List ElementId) (table : Array (Array Float))
    (step : Nat) (element : ElementId) (behavior : BehaviorId) : Option Float := do
  let row := (elements.idxOf? element).getD 0
  let column ← table[row * run.vocabulary.behaviorCount + behavior]?
  column[step]?

/-- The probability of a behavior, zero if it is not possible. -/
def ResponseModel.probability? {α : Type} [Scalar α] (model : ResponseModel α)
    (elements : List ElementId) (behavior : BehaviorId) (v? : ElementId → BehaviorId → Option α) :
    Option α := do
  let scores ← model.scores? elements v?
  match scores.find? fun score => score.1 == behavior with
  | some score => return score.2 / totalScore scores
  | none => return Scalar.zero

/-- The probability of a behavior at some steps. -/
def probabilitySeries? (run : RunRecord) (record : Record) (elements : List ElementId)
    (behavior : BehaviorId) (steps : List Nat) : Option (List Float) := do
  let table ← weightTable? run record elements
  steps.mapM fun k =>
    run.response.probability? elements behavior (tableWeight? run elements table k)

/-! ## Answers -/

namespace Query

/-- The values of a query at some steps. -/
def valuesAt? (query : Query) (run : RunRecord) (record : Record) (options : Options)
    (steps : List Nat) : Option (List Float) :=
  match query with
  | v pair => do
    let series ← record.seriesV? pair
    sampleAt? steps series
  | w element => do
    let series ← record.seriesW? element
    sampleAt? steps series
  | p elements behavior => probabilitySeries? run record elements behavior steps
  | n items none => do
    let counts ← countSeries? record options steps items
    return counts.map Nat.toFloat
  | n items (some others) => do
    let counts ← countSeries? record options steps items
    let references ← countSeries? record options steps others
    return List.zipWith ratio counts references

/-- The series of a query for one subject. -/
def series? (query : Query) (run : RunRecord) (options : Options) (record : Record) :
    Option (Except Error (List Float)) :=
  match selectedSteps? run record options with
  | none => none
  | some (.error error) => some (.error error)
  | some (.ok steps) => (query.valuesAt? run record options steps).map .ok

end Query

namespace Experiment

/-- The answer for the selected subjects of a run. -/
def answer? (run : RunRecord) (query : Query) (options : Options) :
    Option (Except Error Evaluation) :=
  match options.selection with
  | .index i =>
    match run.subjects[i]? with
    | some record => (query.series? run options record).map fun result => result.map .series
    | none => some (.error (.unanswerable (.subjectIndex i run.subjects.length)))
  | .all =>
    (untilError? (query.series? run options) run.subjects).map fun all => all.map .perSubject
  | .average =>
    (untilError? (query.series? run options) run.subjects).map fun all =>
      all.map fun all => .series (average all)

/-- The answer to a query. -/
def evaluate? (experiment : Experiment) (expression : Expression) (options : Options) :
    Option (Except Error Evaluation) :=
  match experiment.selectRun options with
  | .error error => some (.error error)
  | .ok run =>
    match Query.resolve run expression options with
    | .error error => some (.error error)
    | .ok query => answer? run query options

end Experiment

/-! ## What a record keeps -/

/-- A record has a cell for each pair and for each element, a step after the start for each entry of
its history, and for each step a value of each salience that is kept. -/
structure Record.Complete (record : Record) (run : RunRecord) : Prop where
  fits : record.Fits run.vocabulary
  stepCount : record.stepCount = record.history.size + 1
  length_seriesW : run.hasSalience = true → ∀ element < run.vocabulary.elementCount,
    (record.seriesW element).length = record.stepCount

/-- The response model of a run knows the possible behaviors of each element, and the records of its
subjects are complete. -/
structure RunRecord.Complete (run : RunRecord) : Prop where
  feasibleFor : ∀ element < run.vocabulary.elementCount,
    run.response.feasibleFor? element = some (run.response.feasibleFor element)
  lt_of_mem : ∀ elements, ∀ behavior ∈ run.response.feasibleBehaviors elements,
    behavior < run.vocabulary.behaviorCount
  subjects : ∀ record ∈ run.subjects, record.Complete run

/-! ## Every series is long enough -/

theorem sampleAt?_eq {steps : List Nat} {series : List Float}
    (h : ∀ k ∈ steps, k < series.length) : sampleAt? steps series = some (sampleAt steps series) :=
  mapM_eq_some fun k hk => getElem?_eq_getD (by simpa using h k hk) 0.0

namespace Record

variable {record : Record}

theorem seriesV?_eq {pair : Nat} (h : pair < record.v.size) :
    record.seriesV? pair = some (record.seriesV pair) := by
  rw [seriesV?, getElem?_eq_getD h []]
  rfl

theorem seriesW?_eq {element : ElementId} (h : element < record.w.size) :
    record.seriesW? element = some (record.seriesW element) := by
  rw [seriesW?, getElem?_eq_getD h [], seriesW]
  cases record.w.getD element [] <;> rfl

end Record

/-! ## Every occurrence has a step -/

section

variable {exact : Bool} {items : List Item}

theorem foldlM_countPlace?_eq {row : List Token} {places : List Nat} {n : Nat}
    (h : ∀ place ∈ places, place ≤ row.length ∧ stepOf place < n) {counts : Array Nat}
    (hcounts : counts.size = n) :
    places.foldlM (countPlace? exact items row) counts =
      some ((places.filter fun place => meetsFront exact items (row.drop place)).foldl
        (fun counts place => counts.modify (stepOf place) (· + 1)) counts) := by
  rw [List.foldl_filter]
  refine (foldlM_eq_some (P := fun counts => counts.size = n)
    (fun counts hcounts place hplace => ?_) hcounts).1
  obtain ⟨hle, hstep⟩ := h place hplace
  rw [countPlace?, tokensFrom?, if_pos hle, Option.bind_eq_bind, Option.bind_some]
  split
  · exact ⟨modify?_eq (hcounts ▸ hstep) _, Array.size_modify.trans hcounts⟩
  · exact ⟨rfl, hcounts⟩

/-- Counting the occurrences one by one gives the counts at each step. -/
theorem foldl_modify_occurrenceSteps (record : Record) :
    (occurrenceSteps exact items (tokens record.history.toList)).foldl
        (fun counts step => counts.modify step (· + 1)) (Array.replicate record.stepCount 0) =
      (stepCounts exact items record).toArray := by
  have hsize := (size_foldl_modify (· + 1)
    (occurrenceSteps exact items (tokens record.history.toList))
    (Array.replicate record.stepCount 0)).trans Array.size_replicate
  refine Array.ext (hsize.trans (size_stepCounts record).symm) fun k hk hk' => ?_
  have hlt : k < record.stepCount := hsize ▸ hk
  rw [Array.getElem_eq_getD 0, Array.getElem_eq_getD 0, getD_stepCounts hlt,
    getD_foldl_modify _ _ (by rwa [Array.size_replicate]), Array.getD_eq_getD_getElem?,
    Array.getElem?_replicate, if_pos hlt, Option.getD_some]
  exact (Nat.succ_iterate 0 _).trans (Nat.zero_add _)

end

/-! ## Every selected step is counted -/

theorem selectCounted?_eq {counts : Array Nat} {steps : List Nat}
    (h : ∀ k ∈ steps, k < counts.size) :
    selectCounted? counts steps = some (steps.filter fun k => 0 < counts.getD k 0) :=
  filterM_eq_some fun k hk => by rw [getElem?_eq_getD (h k hk) 0, Option.map_some]

theorem spanAt?_eq {counts : Array Nat} (sampled : Bool) {start stop : Nat} (hle : start ≤ stop)
    (hlt : stop < counts.size) :
    spanAt? counts sampled start stop =
      some (if sampled then spanSum counts start stop else counts.getD stop 0) := by
  cases sampled with
  | true =>
    have hslice : start ≤ stop + 1 ∧ stop < counts.size := ⟨Nat.le_succ_of_le hle, hlt⟩
    exact if_pos hslice
  | false => exact getElem?_eq_getD hlt 0

/-- The steps are those of the table and increase, so the span of each starts after the step
before. -/
theorem accumulate?_eq {counts : Array Nat} (sampled cumulative : Bool) {start total : Nat}
    {steps : List Nat} (hsteps : steps.Pairwise (· < ·)) (hstart : ∀ k ∈ steps, start ≤ k)
    (hlt : ∀ k ∈ steps, k < counts.size) :
    accumulate? counts sampled cumulative start total steps =
      some (accumulate counts sampled cumulative start total steps) := by
  induction steps generalizing start total with
  | nil => rfl
  | cons k steps ih =>
    obtain ⟨hlater, hsteps⟩ := List.pairwise_cons.1 hsteps
    obtain ⟨hk, -⟩ := List.forall_mem_cons.1 hstart
    obtain ⟨hcell, hlt⟩ := List.forall_mem_cons.1 hlt
    rw [accumulate?, spanAt?_eq sampled hk hcell, Option.bind_eq_bind, Option.bind_some,
      ih hsteps (fun k' hk' => hlater k' hk') hlt]
    rfl

namespace Record.Complete

variable {record : Record} {run : RunRecord}

/-- The table of counts has a cell for each place that is counted. -/
theorem stepCounts?_eq (h : record.Complete run) (exact : Bool) {items : List Item}
    (hitems : items ≠ []) :
    stepCounts? exact items record = some (stepCounts exact items record).toArray := by
  obtain ⟨row, hrow⟩ : ∃ row, row = tokens record.history.toList := ⟨_, rfl⟩
  have hlength : row.length = 2 * record.history.size := by
    rw [hrow, length_tokens, Array.length_toList]
  have hpos := List.length_pos_iff.2 hitems
  -- without room for the items there is no place to count
  have hplaces : stepCounts? exact items record =
      (List.range (row.length + 1 - items.length)).foldlM (countPlace? exact items row)
        (Array.replicate record.stepCount 0) := by
    rw [stepCounts?, ← hrow]
    split
    next hlt => rw [Nat.sub_eq_zero_of_le hlt, List.range_zero, List.foldlM_nil]; rfl
    next hge => rw [Nat.sub_add_comm (Nat.le_of_not_lt hge)]
  have hplace : ∀ place ∈ List.range (row.length + 1 - items.length),
      place ≤ row.length ∧ stepOf place < record.stepCount := by
    intro place hplace
    have hlt := List.mem_range.1 hplace
    rw [h.stepCount, stepOf]
    omega
  rw [hplaces, foldlM_countPlace?_eq hplace Array.size_replicate, ← occurrences_eq_filter, hrow,
    ← foldl_modify_occurrenceSteps, occurrenceSteps, List.foldl_map]

variable {options : Options}

theorem selectedSteps?_eq (h : record.Complete run) (hoptions : options.Proper) :
    selectedSteps? run record options = some (selectedSteps run record options) := by
  simp only [selectedSteps?, selectedSteps]
  cases hsteps : options.steps with
  | none => rfl
  | some pattern =>
    simp only
    cases hitems : pattern.resolve run.vocabulary with
    | error error => rfl
    | ok items =>
      have hne := Pattern.resolve_ne_nil (hoptions pattern hsteps) hitems
      have hcells : ∀ k ∈ phaseSteps run record options.phases,
          k < (stepCounts options.exactSteps items record).toArray.size := by
        intro k hk
        rw [size_stepCounts]
        exact List.mem_range.1 ((phaseSteps_sublist _).subset hk)
      simp only [h.stepCounts?_eq _ hne, selectCounted?_eq hcells, Option.bind_eq_bind,
        Option.bind_some]
      rfl

variable {steps : List Nat}

theorem countSeries?_eq (h : record.Complete run)
    (hselected : selectedSteps run record options = .ok steps) {items : List Item}
    (hitems : items ≠ []) :
    countSeries? record options steps items = some (countSeries record options steps items) := by
  have hcells : ∀ k ∈ steps, k < (stepCounts options.exactN items record).toArray.size := by
    intro k hk
    rw [size_stepCounts]
    exact lt_stepCount_of_selectedSteps hselected hk
  rw [countSeries?, h.stepCounts?_eq _ hitems, Option.bind_eq_bind, Option.bind_some]
  exact accumulate?_eq _ _ (pairwise_lt_of_selectedSteps hselected) (fun _ _ => Nat.zero_le _)
    hcells

/-! ## Every weight is in the table -/

theorem weightTable?_eq (h : record.Complete run) {elements : List ElementId}
    (helements : ∀ element ∈ elements, element < run.vocabulary.elementCount) :
    weightTable? run record elements = some (weightTable run record elements) := by
  have hrow : ∀ element ∈ elements, weightRow? run record element =
      some ((List.range run.vocabulary.behaviorCount).map fun behavior =>
        (record.seriesV (run.vocabulary.pair element behavior)).toArray) := by
    intro element helement
    refine mapM_eq_some fun behavior hbehavior => ?_
    have hlt := List.mem_range.1 hbehavior
    have hpair := run.vocabulary.pair_lt (helements element helement) hlt
    rw [Vocabulary.pair?_eq (helements element helement) hlt, Option.bind_eq_bind,
      Option.bind_some, Record.seriesV?_eq (h.fits.v ▸ hpair)]
    rfl
  rw [weightTable?, mapM_eq_some hrow, Option.bind_eq_bind, Option.bind_some, ← List.flatMap_def]
  rfl

theorem tableWeight?_eq {elements : List ElementId} {k : Nat} (hk : k < record.stepCount)
    {element : ElementId} (helement : element ∈ elements) {behavior : BehaviorId}
    (hbehavior : behavior < run.vocabulary.behaviorCount) :
    tableWeight? run elements (weightTable run record elements) k element behavior =
      some (tableWeight run elements (weightTable run record elements) k element behavior) := by
  have hcell : k < (record.seriesV (run.vocabulary.pair element behavior)).length :=
    (record.length_seriesV _).symm ▸ hk
  rw [tableWeight?, getElem?_weightTable run record helement hbehavior,
    tableWeight_weightTable run record k helement hbehavior, Option.bind_eq_bind, Option.bind_some,
    List.getElem?_toArray, List.getElem?_eq_getElem hcell]
  rfl

end Record.Complete

theorem ResponseModel.probability?_eq {α : Type} [Scalar α] {model : ResponseModel α}
    {elements : List ElementId} {v? : ElementId → BehaviorId → Option α}
    {v : ElementId → BehaviorId → α}
    (h : ∀ element ∈ elements, model.feasibleFor? element = some (model.feasibleFor element))
    (hv : ∀ element ∈ elements, ∀ behavior ∈ model.feasibleBehaviors elements,
      v? element behavior = some (v element behavior)) (behavior : BehaviorId) :
    model.probability? elements behavior v? = some (model.probability elements behavior v) := by
  simp only [probability?, scores?_eq h hv, Option.bind_eq_bind, Option.bind_some, probability]
  cases (model.scores elements v).find? fun score => score.1 == behavior <;> rfl

namespace RunRecord.Complete

variable {run : RunRecord} {record : Record} {options : Options} {steps : List Nat}

theorem probabilitySeries?_eq (hrun : run.Complete) (hrecord : record.Complete run)
    (hsteps : ∀ k ∈ steps, k < record.stepCount) {elements : List ElementId}
    (helements : ∀ element ∈ elements, element < run.vocabulary.elementCount)
    (behavior : BehaviorId) :
    probabilitySeries? run record elements behavior steps =
      some (probabilitySeries run record elements behavior steps) := by
  rw [probabilitySeries?, hrecord.weightTable?_eq helements, Option.bind_eq_bind, Option.bind_some]
  refine mapM_eq_some fun k hk => ?_
  exact ResponseModel.probability?_eq
    (fun element helement => hrun.feasibleFor element (helements element helement))
    (fun element helement behavior hbehavior =>
      Record.Complete.tableWeight?_eq (hsteps k hk) helement (hrun.lt_of_mem _ _ hbehavior))
    behavior

/-! ## Every answer is in range -/

theorem valuesAt?_eq (hrun : run.Complete) (hrecord : record.Complete run) {query : Query}
    (hquery : query.InRange run) (hselected : selectedSteps run record options = .ok steps) :
    query.valuesAt? run record options steps = some (query.valuesAt run record options steps) := by
  have hsteps : ∀ k ∈ steps, k < record.stepCount := fun k hk =>
    lt_stepCount_of_selectedSteps hselected hk
  cases query with
  | v pair =>
    have hpair : pair < run.vocabulary.pairCount := hquery
    have hseries := Record.seriesV?_eq (hrecord.fits.v ▸ hpair)
    rw [Query.valuesAt?, hseries, Option.bind_eq_bind, Option.bind_some]
    exact sampleAt?_eq fun k hk => (record.length_seriesV pair).symm ▸ hsteps k hk
  | w element =>
    have hseries := Record.seriesW?_eq (hrecord.fits.w ▸ hquery.2)
    rw [Query.valuesAt?, hseries, Option.bind_eq_bind, Option.bind_some]
    exact sampleAt?_eq fun k hk =>
      (hrecord.length_seriesW hquery.1 element hquery.2).symm ▸ hsteps k hk
  | p elements behavior => exact hrun.probabilitySeries?_eq hrecord hsteps hquery behavior
  | n items reference =>
    have hcounts := hrecord.countSeries?_eq hselected hquery.1
    cases reference with
    | none =>
      rw [Query.valuesAt?, hcounts]
      rfl
    | some others =>
      rw [Query.valuesAt?, hcounts, hrecord.countSeries?_eq hselected (hquery.2 others rfl)]
      rfl

theorem series?_eq (hrun : run.Complete) (hrecord : record.Complete run) (hoptions : options.Proper)
    {query : Query} (hquery : query.InRange run) :
    query.series? run options record = some (query.series run options record) := by
  rw [Query.series?, hrecord.selectedSteps?_eq hoptions, Query.series]
  cases hselected : selectedSteps run record options with
  | error error => rfl
  | ok steps =>
    simp only [hrun.valuesAt?_eq hrecord hquery hselected]
    rfl

theorem answer?_eq (hrun : run.Complete) (hoptions : options.Proper) {query : Query}
    (hquery : query.InRange run) :
    Experiment.answer? run query options = some (Experiment.answer run query options) := by
  have hseries : ∀ record ∈ run.subjects,
      query.series? run options record = some (query.series run options record) :=
    fun record hrecord => hrun.series?_eq (hrun.subjects record hrecord) hoptions hquery
  simp only [Experiment.answer?, Experiment.answer]
  cases options.selection with
  | index i =>
    simp only
    cases hrecord : run.subjects[i]? with
    | none => rfl
    | some record => simp only [hseries record (List.mem_of_getElem? hrecord), Option.map_some]
  | all => simp only [untilError?_eq hseries, Option.map_some]
  | average => simp only [untilError?_eq hseries, Option.map_some]

end RunRecord.Complete

namespace Experiment

variable {experiment : Experiment} {options : Options}

theorem mem_of_selectRun {run : RunRecord} (h : experiment.selectRun options = .ok run) :
    ∃ label, (label, run) ∈ experiment.runs := by
  unfold selectRun at h
  split at h
  next label =>
    split at h
    next run' hget =>
      cases h
      obtain ⟨⟨name, _⟩, hfind, rfl⟩ := Option.map_eq_some_iff.1 hget
      exact ⟨name, List.mem_of_find?_eq_some hfind⟩
    next => cases h
  next =>
    split at h
    next labelled hfirst =>
      cases h
      exact ⟨labelled.1, List.mem_of_mem_head? hfirst⟩
    next => cases h

/-- If the records of all runs are complete, a query that is proper uses no number that is out of
range. -/
theorem evaluate?_eq (h : ∀ labelled ∈ experiment.runs, labelled.2.Complete)
    {expression : Expression} (hexpression : expression.Proper) (hoptions : options.Proper) :
    experiment.evaluate? expression options = some (experiment.evaluate expression options) := by
  rw [evaluate?, evaluate]
  cases hselect : experiment.selectRun options with
  | error error => rfl
  | ok run =>
    obtain ⟨label, hmem⟩ := mem_of_selectRun hselect
    simp only
    cases hquery : Query.resolve run expression options with
    | error error => simp only [hquery, bind, Except.bind]
    | ok query =>
      simp only [hquery, bind, Except.bind]
      exact (h _ hmem).answer?_eq hoptions (Query.inRange_of_resolve hexpression hquery)

end Experiment

end Conditioning
