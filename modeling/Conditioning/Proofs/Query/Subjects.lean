import Conditioning.Proofs.Query.Matches
import Conditioning.Proofs.Query.Pinned
import Conditioning.Proofs.Stages.Query
import Mathlib.Data.List.GetD

/-!
# Selections of subjects

A query asks one subject, all subjects, or their mean.  Names are resolved for the
run, and only values are taken from the record of a subject.  So what can go wrong
with a query goes wrong before a subject is looked at (`evaluate_all`,
`evaluate_average`, `evaluate_index`), and the three selections fail alike and give
the same series.

The mean has a value at each place that some series reaches.  It is the mean of the
series that reach the place, in the order of the subjects (`getElem?_average`).
-/

namespace Conditioning

/-! ## Means -/

section

variable {all : List (List Float)} {j : Nat}

theorem greatestLength_eq_foldl (all : List (List Float)) :
    greatestLength all = (all.map List.length).foldl max 0 := by
  have hmax (n : Nat) (values : List Float) :
      (if n < values.length then values.length else n) = max n values.length := by
    split <;> omega
  rw [greatestLength, List.foldl_map]
  simp only [hmax]

/-- The greatest length is the length of some series, and no series is longer. -/
theorem max?_map_length (h : all ≠ []) :
    (all.map List.length).max? = some (greatestLength all) := by
  rw [greatestLength_eq_foldl]
  cases all with
  | nil => exact absurd rfl h
  | cons values all => rw [List.map_cons, List.max?_cons', List.foldl_cons, Nat.zero_max]

theorem length_average (all : List (List Float)) :
    (average all).length = greatestLength all := by
  rw [average, List.length_map, List.length_range]

/-- The series that are longer than a place. -/
def reaching (j : Nat) (all : List (List Float)) : List (List Float) :=
  all.filter fun values => j < values.length

/-- A place of the mean is reached by a series. -/
theorem length_reaching_pos (h : j < greatestLength all) : 0 < (reaching j all).length := by
  have hne : all ≠ [] := by
    rintro rfl
    exact absurd h (Nat.not_lt_zero j)
  have hmem := List.max?_mem (max?_map_length hne)
  obtain ⟨values, hvalues, hlength⟩ := List.mem_map.1 hmem
  refine List.length_pos_of_mem (List.mem_filter.2 ⟨hvalues, ?_⟩)
  exact decide_eq_true (hlength ▸ h)

theorem filterMap_getElem? (all : List (List Float)) (j : Nat) :
    (all.filterMap fun values => values[j]?) =
      (reaching j all).map fun values => values.getD j 0.0 := by
  induction all with
  | nil => rfl
  | cons values all ih =>
    by_cases h : j < values.length
    · rw [List.filterMap_cons, List.getElem?_eq_getElem h, ih, reaching, reaching,
        List.filter_cons_of_pos (by simpa using h), List.map_cons, List.getD_eq_getElem _ _ h]
    · rw [List.filterMap_cons, List.getElem?_eq_none (Nat.le_of_not_lt h), ih, reaching, reaching,
        List.filter_cons_of_neg (by simpa using h)]

/-- At a place, the mean is the sum of the values of the series that reach the place, divided by
their number. -/
theorem getElem?_average (h : j < greatestLength all) :
    (average all)[j]? =
      some (((reaching j all).map fun values => values.getD j 0.0).foldl (· + ·) 0.0 /
        (reaching j all).length.toFloat) := by
  have hcolumn : (all.map List.toArray).filterMap (fun column => column[j]?) =
      (reaching j all).map fun values => values.getD j 0.0 := by
    rw [← filterMap_getElem?, List.filterMap_map]
    simp only [Function.comp_def, List.getElem?_toArray]
  rw [average, List.getElem?_map, List.getElem?_range h, Option.map_some, hcolumn, mean,
    List.length_map]

end

/-! ## Series -/

/-- The steps at which values are taken, where the items of a pattern start if there are some. -/
def stepsWith (run : RunRecord) (record : Record) (options : Options)
    (items : Option (List Item)) : List Nat :=
  let steps := phaseSteps run record options.phases
  match items with
  | none => steps
  | some items =>
    let counts := (stepCounts options.exactSteps items record).toArray
    steps.filter fun k => 0 < counts.getD k 0

theorem selectedSteps_eq_map (run : RunRecord) (record : Record) (options : Options) :
    selectedSteps run record options =
      (Pattern.resolveReference run.vocabulary options.steps).map
        (stepsWith run record options) := by
  rw [selectedSteps]
  cases options.steps with
  | none => rfl
  | some pattern =>
    simp only [Pattern.resolveReference]
    cases pattern.resolve run.vocabulary <;> rfl

/-- What is asked of the records of a run: a query, and the items at whose steps values are
taken. -/
structure Asked where
  query : Query
  items : Option (List Item)

namespace Asked

/-- What an expression and options ask of a run. -/
def ofExpression (run : RunRecord) (expression : Expression) (options : Options) :
    Except Error Asked := do
  let query ← Query.resolve run expression options
  let items ← Pattern.resolveReference run.vocabulary options.steps
  return ⟨query, items⟩

/-- What is found in the record of a subject. -/
def values (asked : Asked) (run : RunRecord) (options : Options) (record : Record) : List Float :=
  asked.query.valuesAt run record options (stepsWith run record options asked.items)

end Asked

theorem Query.series_eq_map (query : Query) (run : RunRecord) (options : Options)
    (record : Record) :
    query.series run options record =
      (Pattern.resolveReference run.vocabulary options.steps).map fun items =>
        Asked.values ⟨query, items⟩ run options record := by
  rw [series, selectedSteps_eq_map]
  cases Pattern.resolveReference run.vocabulary options.steps <;> rfl

/-! ## Answers -/

namespace Experiment

variable {experiment : Experiment} {expression : Expression} {options : Options} {run : RunRecord}

/-- The number of subjects of the run that options ask for, and none if there is no such run. -/
def subjectCount (experiment : Experiment) (options : Options) : Nat :=
  match experiment.selectRun options with
  | .ok run => run.subjects.length
  | .error _ => 0

theorem evaluate_of_selectRun_error {error : Error}
    (hselect : experiment.selectRun options = .error error) (selection : Selection) :
    experiment.evaluate expression { options with selection } = .error error := by
  have hselect' : experiment.selectRun { options with selection } = .error error := hselect
  rw [evaluate, hselect']
  rfl

/-- What is asked for all subjects of a run. -/
theorem mapM_series (hsubjects : run.subjects ≠ []) {β : Type} (f : List (List Float) → β) :
    (Query.resolve run expression options >>= fun query =>
        (run.subjects.mapM (query.series run options)).map f) =
      (Asked.ofExpression run expression options).map fun asked =>
        f (run.subjects.map (asked.values run options)) := by
  rw [Asked.ofExpression]
  cases Query.resolve run expression options with
  | error error => rfl
  | ok query =>
    have hseries := mapM_map_of_ne_nil (Pattern.resolveReference run.vocabulary options.steps)
      (fun record items => Asked.values ⟨query, items⟩ run options record) hsubjects
    simp only [← Query.series_eq_map] at hseries
    show (run.subjects.mapM fun record => query.series run options record).map f = _
    rw [hseries]
    cases Pattern.resolveReference run.vocabulary options.steps <;> rfl

theorem evaluate_all (hselect : experiment.selectRun options = .ok run)
    (hsubjects : run.subjects ≠ []) :
    experiment.evaluate expression { options with selection := .all } =
      (Asked.ofExpression run expression options).map fun asked =>
        .perSubject (run.subjects.map (asked.values run options)) := by
  have hselect' : experiment.selectRun { options with selection := .all } = .ok run := hselect
  rw [evaluate_of_selectRun hselect']
  exact mapM_series hsubjects Evaluation.perSubject

theorem evaluate_average (hselect : experiment.selectRun options = .ok run)
    (hsubjects : run.subjects ≠ []) :
    experiment.evaluate expression { options with selection := .average } =
      (Asked.ofExpression run expression options).map fun asked =>
        .series (average (run.subjects.map (asked.values run options))) := by
  have hselect' : experiment.selectRun { options with selection := .average } = .ok run := hselect
  rw [evaluate_of_selectRun hselect']
  exact mapM_series hsubjects fun all => Evaluation.series (average all)

theorem evaluate_index (hselect : experiment.selectRun options = .ok run) {i : Nat}
    {record : Record} (hrecord : run.subjects[i]? = some record) :
    experiment.evaluate expression { options with selection := .index i } =
      (Asked.ofExpression run expression options).map fun asked =>
        .series (asked.values run options record) := by
  have hselect' : experiment.selectRun { options with selection := .index i } = .ok run := hselect
  have hanswer (query : Query) : answer run query { options with selection := .index i } =
      (query.series run options record).map Evaluation.series := by
    simp only [answer, hrecord]
    rfl
  rw [evaluate_of_selectRun hselect', Asked.ofExpression]
  simp only [hanswer, Query.series_eq_map]
  show (Query.resolve run expression options >>= _) = _
  cases Query.resolve run expression options with
  | error error => rfl
  | ok query => cases Pattern.resolveReference run.vocabulary options.steps <;> rfl

/-- A subject that the run does not have is an error of evaluation. -/
theorem evaluate_index_fails {i : Nat} (hi : experiment.subjectCount options ≤ i) :
    ∃ error, experiment.evaluate expression { options with selection := .index i } =
      .error error ∧ error.stage = .evaluation := by
  have hstage := failsAt_evaluate experiment expression { options with selection := .index i }
  cases hfound : experiment.evaluate expression { options with selection := .index i } with
  | error error => exact ⟨error, rfl, List.mem_singleton.1 (hstage error hfound)⟩
  | ok found =>
    obtain ⟨run, hselect, hrest⟩ := bind_eq_ok.1 hfound
    obtain ⟨query, -, hanswer⟩ := bind_eq_ok.1 hrest
    have hselect' : experiment.selectRun options = .ok run := hselect
    rw [subjectCount, hselect'] at hi
    simp only [answer, List.getElem?_eq_none hi] at hanswer
    cases hanswer

/-- Selections of subjects agree.  If the run that is asked has a subject, then all subjects have
an answer if their mean does and if any one of them does, and they fail with the same error if
not.  The answer for one subject is its series among those of all.  The mean is as long as the
longest of these, and at each place it is the sum, in the order of the subjects, of the values of
the series that are longer, divided by their number.  A subject that the run does not have is an
error of evaluation. -/
theorem subject_selections_agree {experiment : Experiment} {options : Options}
    (hsubjects : ∀ run, experiment.selectRun options = .ok run → run.subjects ≠ [])
    (expression : Expression) :
    let ask (selection : Selection) := experiment.evaluate expression { options with selection }
    let count := experiment.subjectCount options
    ((∃ found, ask .all = .ok found) ↔ ∃ found, ask .average = .ok found) ∧
    (∀ i < count, (∃ found, ask .all = .ok found) ↔ ∃ found, ask (.index i) = .ok found) ∧
    (∀ error, ask .all = .error error →
      ask .average = .error error ∧ ∀ i < count, ask (.index i) = .error error) ∧
    (∀ found, ask .all = .ok found → ∃ all mean, found = .perSubject all ∧ all.length = count ∧
      (∀ i values, all[i]? = some values → ask (.index i) = .ok (.series values)) ∧
      ask .average = .ok (.series mean) ∧
      (all.map List.length).max? = some mean.length ∧
      ∀ j < mean.length, 0 < (reaching j all).length ∧
        mean[j]? = some (((reaching j all).map fun values => values.getD j 0.0).foldl (· + ·) 0.0 /
          (reaching j all).length.toFloat)) ∧
    ∀ i ≥ count, ∃ error, ask (.index i) = .error error ∧ error.stage = .evaluation := by
  intro ask count
  cases hselect : experiment.selectRun options with
  | error error =>
    have hask (selection : Selection) : ask selection = .error error :=
      evaluate_of_selectRun_error hselect selection
    have hcount : count = 0 := by
      simp only [count, subjectCount, hselect]
    refine ⟨?_, fun i hi => ?_, fun refused hrefused => ?_, fun found hfound => ?_,
      fun i hi => evaluate_index_fails hi⟩
    · rw [hask, hask]
    · rw [hask, hask]
    · rw [← hrefused, hask, hask]
      exact ⟨rfl, fun i _ => hask (.index i)⟩
    · cases (hask .all).symm.trans hfound
  | ok run =>
    have hne := hsubjects run hselect
    have hcount : count = run.subjects.length := by
      simp only [count, subjectCount, hselect]
    have hall : ask .all = _ := evaluate_all hselect hne
    have haverage : ask .average = _ := evaluate_average hselect hne
    have hindex (i : Nat) (hi : i < count) : ∃ record, ask (.index i) =
        (Asked.ofExpression run expression options).map fun asked =>
          .series (asked.values run options record) :=
      ⟨_, evaluate_index hselect (List.getElem?_eq_getElem (hcount ▸ hi))⟩
    refine ⟨?_, fun i hi => ?_, fun error herror => ?_, fun found hfound => ?_,
      fun i hi => evaluate_index_fails hi⟩
    · rw [hall, haverage, exists_map_eq_ok, exists_map_eq_ok]
    · obtain ⟨record, hrecord⟩ := hindex i hi
      rw [hall, hrecord, exists_map_eq_ok, exists_map_eq_ok]
    · rw [hall] at herror
      have hasked := map_eq_error.1 herror
      refine ⟨haverage.trans (map_eq_error.2 hasked), fun i hi => ?_⟩
      obtain ⟨record, hrecord⟩ := hindex i hi
      exact hrecord.trans (map_eq_error.2 hasked)
    · rw [hall] at hfound
      obtain ⟨asked, hasked, rfl⟩ := map_eq_ok.1 hfound
      have hall_ne : run.subjects.map (asked.values run options) ≠ [] :=
        fun he => hne (List.map_eq_nil_iff.1 he)
      refine ⟨_, average (run.subjects.map (asked.values run options)), rfl, ?_,
        fun i values hvalues => ?_, haverage.trans (map_eq_ok.2 ⟨asked, hasked, rfl⟩), ?_,
        fun j hj => ?_⟩
      · rw [List.length_map, hcount]
      · rw [List.getElem?_map] at hvalues
        obtain ⟨record, hrecord, rfl⟩ := Option.map_eq_some_iff.1 hvalues
        exact (evaluate_index hselect hrecord).trans (map_eq_ok.2 ⟨asked, hasked, rfl⟩)
      · rw [length_average, max?_map_length hall_ne]
      · rw [length_average] at hj
        exact ⟨length_reaching_pos hj, getElem?_average hj⟩

/-- The run of `compoundRecord` and of a record that is two steps shorter. -/
def raggedRun : RunRecord := { compoundRun with
  subjects := [compoundRecord, { compoundRecord with
    phases := #[0, 0, 0], history := #[⟨⟨[0]⟩, 1⟩, ⟨⟨[1]⟩, 0⟩], lastStep := some 2 }] }

/-- Two subjects see the conditioned stimulus four times and once.  The last two values of the mean
are those of the first subject, and there is no third subject. -/
theorem subject_selections_agree_ragged :
    let ask (selection : Selection) := (empty.put "trial" raggedRun).evaluate
      (.n (.name "cs") none) { Options.default with selection }
    let first := [0, 1, 2, 3, 4].map Nat.toFloat
    let second := [0, 1, 1].map Nat.toFloat
    ask .all = .ok (.perSubject [first, second]) ∧
    ask (.index 1) = .ok (.series second) ∧
    (∃ mean, ask .average = .ok (.series mean) ∧ mean.length = 5 ∧
      mean[2]? = some ((0.0 + Nat.toFloat 2 + Nat.toFloat 1) / Nat.toFloat 2) ∧
      mean[4]? = some ((0.0 + Nat.toFloat 4) / Nat.toFloat 1)) ∧
    ∃ error, ask (.index 2) = .error error ∧ error.stage = .evaluation := by
  intro ask first second
  have hall : ask .all = .ok (.perSubject [first, second]) := by rfl
  have hsubjects : ∀ run, (empty.put "trial" raggedRun).selectRun Options.default = .ok run →
      run.subjects ≠ [] := by
    rintro _ ⟨⟩
    exact List.cons_ne_nil _ _
  obtain ⟨-, -, -, hfound, hmissing⟩ :=
    subject_selections_agree hsubjects (.n (.name "cs") none)
  obtain ⟨_, mean, heq, -, hindex, haverage, hlength, hvalues⟩ := hfound _ hall
  cases heq
  have hfive : 5 = mean.length := Option.some.inj hlength
  exact ⟨hall, hindex 1 second rfl, ⟨mean, haverage, hfive.symm, (hvalues 2 (by omega)).2,
    (hvalues 4 (by omega)).2⟩, hmissing 2 (Nat.le_refl 2)⟩

end Experiment

end Conditioning
