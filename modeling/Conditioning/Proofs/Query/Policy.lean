import Conditioning.Proofs.Run.History
import Conditioning.Proofs.Run.Subjects
import Conditioning.Query.Evaluation

/-!
# The probability of a response

A query for a probability does not see the subject.  It builds a table of weights
from the record, with a row for each element that is named, and asks the response
model again.  The table has the series of a pair where the query looks for it,
also when an element is named twice (`tableWeight_weightTable`), and the series
tells the weights that the subject had.  So the answer is the probability that
the subject's own mechanism gave (`Experiment.evaluate_p_eq_probability`), and it
is the policy that the response of the step was drawn from.
-/

namespace Conditioning

/-! ## The table of weights -/

/-- If all parts have one length, a place of the whole is a place of a part. -/
theorem getElem?_flatMap_of_length {α β : Type} {f : α → List β} {n : Nat}
    (hf : ∀ x, (f x).length = n) (xs : List α) (i : Nat) {j : Nat} (hj : j < n) :
    (xs.flatMap f)[i * n + j]? = xs[i]?.bind fun x => (f x)[j]? := by
  induction xs generalizing i with
  | nil => simp
  | cons x xs ih =>
    rw [List.flatMap_cons, List.getElem?_append, hf]
    cases i with
    | zero => simp [hj]
    | succ i =>
      have hle : ¬(i + 1) * n + j < n := by
        rw [Nat.succ_mul]
        omega
      have hsub : (i + 1) * n + j - n = i * n + j := by
        rw [Nat.succ_mul]
        omega
      rw [if_neg hle, hsub, ih, List.getElem?_cons_succ]

/-- The table of some elements has a column for each of them and each behavior. -/
theorem getElem?_weightTable (run : RunRecord) (record : Record) {elements : List ElementId}
    {element : ElementId} (helement : element ∈ elements) {behavior : BehaviorId}
    (hbehavior : behavior < run.vocabulary.behaviorCount) :
    (weightTable run record elements)[
        (elements.idxOf? element).getD 0 * run.vocabulary.behaviorCount + behavior]? =
      some (record.seriesV (run.vocabulary.pair element behavior)).toArray := by
  obtain ⟨row, hrow⟩ := Option.isSome_iff_exists.1 (List.isSome_idxOf?.2 helement)
  obtain ⟨hlt, he, -⟩ := List.idxOf?_eq_some_iff.1 hrow
  rw [hrow, Option.getD_some, weightTable, List.getElem?_toArray,
    getElem?_flatMap_of_length (by simp) _ _ hbehavior, List.getElem?_eq_getElem hlt, he]
  simp [hbehavior]

/-- The table of some elements has the series of a pair where it is looked for. -/
theorem tableWeight_weightTable (run : RunRecord) (record : Record) {elements : List ElementId}
    (step : Nat) {element : ElementId} (helement : element ∈ elements) {behavior : BehaviorId}
    (hbehavior : behavior < run.vocabulary.behaviorCount) :
    tableWeight run elements (weightTable run record elements) step element behavior =
      (record.seriesV (run.vocabulary.pair element behavior))[step]?.getD 0.0 := by
  simp [tableWeight, Array.getD_eq_getD_getElem?,
    getElem?_weightTable run record helement hbehavior]

/-! ## Resolving and selecting -/

namespace Query

theorem queryElement_eq_ok {vocabulary : Vocabulary} {name : String} {element : ElementId}
    (h : vocabulary.element? name = some element) :
    Pattern.queryElement vocabulary name = .ok element := by
  rw [Pattern.queryElement, h]

/-- A query for a probability is resolved when its names are declared. -/
theorem resolve_p {run : RunRecord} {options : Options} (hphases : options.phases = [])
    {names : List String} {elements : List ElementId}
    (helements : List.Forall₂ (fun name element => run.vocabulary.element? name = some element)
      names elements)
    {name : String} {behavior : BehaviorId}
    (hbehavior : run.vocabulary.behavior? name = some behavior) :
    resolve run (.p names name) options = .ok (.p elements behavior) := by
  have hstimulus : names.mapM (Pattern.queryElement run.vocabulary) = .ok elements :=
    mapM_eq_ok.2 (helements.imp fun _ _ => queryElement_eq_ok)
  have hdone : behaviorOf run.vocabulary name = .ok behavior := by
    rw [behaviorOf, hbehavior]
  rw [resolve, hphases]
  exact bind_eq_ok.2 ⟨_, rfl, bind_eq_ok.2 ⟨_, hstimulus, bind_eq_ok.2 ⟨_, hdone, rfl⟩⟩⟩

/-- Without filters all steps are selected. -/
theorem selectedSteps_of_unfiltered {run : RunRecord} {record : Record} {options : Options}
    (hphases : options.phases = []) (hsteps : options.steps = none) :
    selectedSteps run record options = .ok (List.range record.stepCount) := by
  simp [selectedSteps, hsteps, phaseSteps, hphases, inPhases]

end Query

namespace Experiment

/-- The answer to an unfiltered query for a probability, for one subject. -/
theorem answer_p {run : RunRecord} {record : Record} {options : Options}
    (hphases : options.phases = []) (hsteps : options.steps = none) {i : Nat}
    (hselection : options.selection = .index i) (hrecord : run.subjects[i]? = some record)
    (elements : List ElementId) (behavior : BehaviorId) :
    answer run (.p elements behavior) options =
      .ok (.series
        (probabilitySeries run record elements behavior (List.range record.stepCount))) := by
  have hseries : (Query.p elements behavior).series run options record =
      .ok (probabilitySeries run record elements behavior (List.range record.stepCount)) :=
    bind_eq_ok.2 ⟨_, Query.selectedSteps_of_unfiltered hphases hsteps, rfl⟩
  simp only [answer, hselection, hrecord]
  exact map_eq_ok.2 ⟨_, hseries, rfl⟩

end Experiment

/-! ## The probabilities of a subject -/

theorem lt_elementCount_of_forall₂ {vocabulary : Vocabulary} {names : List String}
    {elements : List ElementId}
    (h : List.Forall₂ (fun name element => vocabulary.element? name = some element) names elements) :
    ∀ element ∈ elements, element < vocabulary.elementCount := by
  induction h with
  | nil => simp
  | cons hname _ ih => exact List.forall_mem_cons.2 ⟨lt_length_of_idxOf? hname, ih⟩

section

variable {run : Run} {record : Record} {live : Nat → Option (Learner Float)} {n : Nat}
  {elements : List ElementId}

/-- The table that is built from a record agrees with what was learned, wherever the response
model asks. -/
theorem agree_weightTable (hdeclares : run.mechanism.config.Declares)
    (htells : record.Tells run.mechanism live n) (hend : ∀ k, n < k → live k = none)
    (records : List Record)
    (helements : ∀ element ∈ elements, element < run.mechanism.vocabulary.elementCount)
    {k : Nat} {l : Learner Float} (hl : live k = some l) :
    run.mechanism.config.response.Agree elements
      (tableWeight (run.toRecord records) elements
        (weightTable (run.toRecord records) record elements) k)
      (run.mechanism.weight l) := by
  intro element helement behavior hbehavior
  have hbehavior : behavior < run.mechanism.vocabulary.behaviorCount :=
    hdeclares.lt_of_mem hbehavior
  have hseries :=
    htells.getElem?_seriesV hend (helements element helement) hbehavior k
  rw [hl, Option.map_some] at hseries
  rw [tableWeight_weightTable _ _ _ helement hbehavior]
  show (record.seriesV (run.mechanism.vocabulary.pair element behavior))[k]?.getD 0.0 = _
  rw [hseries, Option.getD_some]

/-- A record that tells what was learned tells the probabilities, too. -/
theorem getElem?_probabilitySeries (hdeclares : run.mechanism.config.Declares)
    (htells : record.Tells run.mechanism live n) (hlive : ∀ k, (live k).isSome ↔ k ≤ n)
    (records : List Record)
    (helements : ∀ element ∈ elements, element < run.mechanism.vocabulary.elementCount)
    (behavior : BehaviorId) (k : Nat) :
    (probabilitySeries (run.toRecord records) record elements behavior
        (List.range record.stepCount))[k]? =
      (live k).map fun l => run.mechanism.probability l ⟨elements⟩ behavior := by
  have hend : ∀ k, n < k → live k = none := by
    intro k hk
    rw [← Option.not_isSome_iff_eq_none, hlive k]
    exact Nat.not_le_of_lt hk
  rw [probabilitySeries, List.getElem?_map, htells.stepCount_eq]
  rcases Nat.lt_or_ge n k with hlt | hle
  · rw [hend k hlt, List.getElem?_eq_none (by simpa using Nat.succ_le_of_lt hlt)]
    rfl
  · obtain ⟨l, hl⟩ := Option.isSome_iff_exists.1 ((hlive k).2 hle)
    have hagree := agree_weightTable hdeclares htells hend records helements hl
    rw [hl, List.getElem?_range (Nat.lt_succ_of_le hle)]
    exact congrArg some (hagree.probability_eq behavior)

end

namespace Experiment

/-- The answer to a query for a probability is at each step the probability that the subject's own
mechanism gives after as many stimuli, and the response of the step was drawn with it.  Only
declared behaviors may be possible, as is the case whatever the settings of a script are. -/
theorem evaluate_p_eq_probability {run : Run} (hdeclares : run.mechanism.config.Declares)
    {budget : Nat} {g g' : Generator} {result : RunRecord}
    (hsimulate : run.simulate budget g = .ok (result, g'))
    {experiment : Experiment} {options : Options}
    (hselect : experiment.selectRun options = .ok result)
    (hphases : options.phases = []) (hsteps : options.steps = none)
    {i : Nat} (hselection : options.selection = .index i)
    {seed : UInt64} (hseed : (g.splits run.subjects).1[i]? = some seed)
    {names : List String} {elements : List ElementId}
    (helements : List.Forall₂
      (fun name element => run.mechanism.vocabulary.element? name = some element) names elements)
    {name : String} {behavior : BehaviorId}
    (hbehavior : run.mechanism.vocabulary.behavior? name = some behavior) :
    ∃ values record, experiment.evaluate (.p names name) options = .ok (.series values) ∧
      (∀ k, values[k]? = (run.replay run.setUp seed k).map fun subject =>
        run.mechanism.probability subject.learner ⟨elements⟩ behavior) ∧
      result.subjects[i]? = some record ∧ values.length = record.history.size + 1 ∧
      ∀ (k : Nat) (entry : HistoryEntry), record.history[k]? = some entry →
        run.Drew run.setUp seed k entry := by
  obtain ⟨hresult, record, after, hrecord, hsubject⟩ :=
    run.exists_subject_of_simulate budget hsimulate hseed
  obtain ⟨n, hn, hsome, htells⟩ := Run.tells_of_subject hsubject
  obtain ⟨hsize, hdrew⟩ := Run.history_of_subject hsubject
  have hlast : n = record.history.size := Option.some.inj (hn.symm.trans hsize)
  generalize result.subjects = records at hresult hrecord
  subst hresult
  have hquery : Query.resolve (run.toRecord records) (.p names name) options =
      .ok (.p elements behavior) := Query.resolve_p hphases helements hbehavior
  have hanswer := answer_p hphases hsteps hselection
    (show (run.toRecord records).subjects[i]? = some record from hrecord) elements behavior
  refine ⟨_, record, bind_eq_ok.2 ⟨_, hselect, bind_eq_ok.2 ⟨_, hquery, hanswer⟩⟩, ?_, hrecord, ?_,
    hdrew⟩
  · intro k
    have hlive : ∀ k, (run.learnerAfter run.setUp seed k).isSome ↔ k ≤ n := by
      intro k
      rw [Run.learnerAfter, Option.isSome_map, hsome k]
    rw [getElem?_probabilitySeries hdeclares htells hlive records
      (lt_elementCount_of_forall₂ helements), Run.learnerAfter, Option.map_map]
    rfl
  · rw [probabilitySeries, List.length_map, List.length_range, htells.stepCount_eq, hlast]

/-- The second subject of the pairings, asked for a stimulus that names an element twice. -/
theorem evaluate_p_eq_probability_pairings :
    let options : Options := { Options.default with selection := .index 1 }
    ∃ result g' seed values record, Run.pairings.simulate 5 ⟨1⟩ = .ok (result, g') ∧
      (Generator.splits 2 ⟨1⟩).1[1]? = some seed ∧
      (empty.put "pairings" result).evaluate (.p ["us", "cs", "us"] "press") options =
        .ok (.series values) ∧
      (∀ k, values[k]? = (Run.pairings.replay Run.pairings.setUp seed k).map fun subject =>
        Run.pairings.mechanism.probability subject.learner ⟨[1, 0, 1]⟩ 1) ∧
      result.subjects[1]? = some record ∧ values.length = 5 ∧
      ∀ (k : Nat) (entry : HistoryEntry), record.history[k]? = some entry →
        Run.pairings.Drew Run.pairings.setUp seed k entry := by
  intro options
  have hfour : ((Run.pairings.simulate 5 ⟨1⟩).toOption.bind fun x =>
      x.1.subjects[1]?.map fun record => record.history.size) = some 4 := by decide +kernel
  obtain ⟨⟨result, g'⟩, hsimulate, hhistory⟩ := Option.bind_eq_some_iff.1 hfour
  have hok := eq_ok_of_toOption_eq_some hsimulate
  obtain ⟨seed, hseed⟩ : ∃ seed, (Generator.splits 2 ⟨1⟩).1[1]? = some seed := ⟨_, rfl⟩
  have hselect : (empty.put "pairings" result).selectRun options = .ok result := rfl
  have helements : List.Forall₂ (fun name element =>
      Run.pairings.mechanism.vocabulary.element? name = some element)
      ["us", "cs", "us"] [1, 0, 1] := .cons rfl (.cons rfl (.cons rfl .nil))
  have hbehavior : Run.pairings.mechanism.vocabulary.behavior? "press" = some 1 := rfl
  obtain ⟨values, record, hanswer, hvalues, hrecord, hlength, hdrew⟩ :=
    evaluate_p_eq_probability (Configuration.declares_default _) hok hselect rfl rfl rfl hseed
      helements hbehavior
  rw [hrecord, Option.map_some, Option.some_inj] at hhistory
  rw [hhistory] at hlength
  exact ⟨result, g', seed, values, record, hok, hseed, hanswer, hvalues, hrecord, hlength, hdrew⟩

end Experiment

end Conditioning
