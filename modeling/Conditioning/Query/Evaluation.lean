import Conditioning.Query.Counting
import Conditioning.Query.Expression
import Conditioning.Query.Options

/-!
# Evaluation of queries

A query picks a run, resolves its names against the run's vocabulary, and gives
one series for each subject: the values at the selected steps.  Steps are
selected by their phase, and by a pattern that has to start there.  The mean of
several series is taken place by place, over the series that reach so far.
-/

namespace Conditioning

/-- A query whose names are resolved. -/
inductive Query where
  | v (pair : Nat)
  | w (element : ElementId)
  /-- The probability of a behavior given elements. -/
  | p (elements : List ElementId) (behavior : BehaviorId)
  /-- The count of items, for each occurrence of others if there are some. -/
  | n (items : List Item) (reference : Option (List Item))

/-- The answer to a query. -/
inductive Evaluation where
  | series (values : List Float)
  | perSubject (values : List (List Float))

/-! ## Resolving -/

namespace Query

/-- The behavior of a name. -/
def behaviorOf (vocabulary : Vocabulary) (name : String) : Except Error BehaviorId :=
  match vocabulary.behavior? name with
  | some behavior => .ok behavior
  | none => .error (.unanswerable (.unknownBehavior name))

/-- The phases that are asked for have to be phases of the run. -/
def checkPhases (run : RunRecord) (phases : List String) : Except Error Unit :=
  match phases.find? fun label => (run.phase? label).isNone with
  | some label => .error (.unanswerable (.unknownPhase label))
  | none => .ok ()

/-- The query that an expression means for a run. -/
def ofExpression (run : RunRecord) (expression : Expression) : Except Error Query :=
  match expression with
  | .v element behavior => do
    let element ← Pattern.queryElement run.vocabulary element
    let behavior ← behaviorOf run.vocabulary behavior
    return .v (run.vocabulary.pair element behavior)
  | .w element => do
    if !run.hasSalience then throw (.unanswerable .noSalience)
    let element ← Pattern.queryElement run.vocabulary element
    return .w element
  | .p stimulus behavior => do
    let elements ← stimulus.mapM (Pattern.queryElement run.vocabulary)
    let behavior ← behaviorOf run.vocabulary behavior
    return .p elements behavior
  | .n pattern reference => do
    let items ← pattern.resolve run.vocabulary
    match reference with
    | none => return .n items none
    | some reference =>
      let others ← reference.resolve run.vocabulary
      return .n items (some others)

/-- The query that an expression means for a run, its phases being checked first. -/
def resolve (run : RunRecord) (expression : Expression) (options : Options) :
    Except Error Query := do
  checkPhases run options.phases
  ofExpression run expression

end Query

/-! ## Selected steps -/

/-- Whether a step belongs to one of some phases; all steps do if there are none. -/
def inPhases (record : Record) (phases : List Nat) (step : Nat) : Bool :=
  phases.isEmpty ||
    match record.phaseOf? step with
    | some phase => phases.contains phase
    | none => false

/-- The steps of some phases. -/
def phaseSteps (run : RunRecord) (record : Record) (labels : List String) : List Nat :=
  let phases := labels.filterMap run.phase?
  (List.range record.stepCount).filter (inPhases record phases)

/-- The steps at which values are taken. -/
def selectedSteps (run : RunRecord) (record : Record) (options : Options) :
    Except Error (List Nat) :=
  let steps := phaseSteps run record options.phases
  match options.steps with
  | none => .ok steps
  | some pattern => do
    let items ← pattern.resolve run.vocabulary
    let counts := (stepCounts options.exactSteps items record).toArray
    return steps.filter fun k => 0 < counts.getD k 0

/-! ## Series -/

/-- The values of a series at some steps. -/
def sampleAt (steps : List Nat) (series : List Float) : List Float :=
  let cells := series.toArray
  steps.map fun k => cells.getD k 0.0

/-- The series of the weights of some elements: a row for each element, and in it a series for each
behavior. -/
def weightTable (run : RunRecord) (record : Record) (elements : List ElementId) :
    Array (Array Float) :=
  (elements.flatMap fun element =>
    (List.range run.vocabulary.behaviorCount).map fun behavior =>
      (record.seriesV (run.vocabulary.pair element behavior)).toArray).toArray

/-- The weight at a step, from the table of some elements.  An element that is named again is
looked up in its first row. -/
def tableWeight (run : RunRecord) (elements : List ElementId) (table : Array (Array Float))
    (step : Nat) (element : ElementId) (behavior : BehaviorId) : Float :=
  let row := (elements.idxOf? element).getD 0
  (table.getD (row * run.vocabulary.behaviorCount + behavior) #[]).getD step 0.0

/-- The probability of a behavior at some steps. -/
def probabilitySeries (run : RunRecord) (record : Record) (elements : List ElementId)
    (behavior : BehaviorId) (steps : List Nat) : List Float :=
  let table := weightTable run record elements
  steps.map fun k => run.response.probability elements behavior (tableWeight run elements table k)

/-- The counts of items at some steps. -/
def countSeries (record : Record) (options : Options) (steps : List Nat) (items : List Item) :
    List Nat :=
  let counts := (stepCounts options.exactN items record).toArray
  accumulate counts options.steps.isSome options.cumulative 0 0 steps

namespace Query

/-- The values of a query at some steps. -/
def valuesAt (query : Query) (run : RunRecord) (record : Record) (options : Options)
    (steps : List Nat) : List Float :=
  match query with
  | v pair => sampleAt steps (record.seriesV pair)
  | w element => sampleAt steps (record.seriesW element)
  | p elements behavior => probabilitySeries run record elements behavior steps
  | n items none => (countSeries record options steps items).map Nat.toFloat
  | n items (some others) =>
    List.zipWith ratio (countSeries record options steps items)
      (countSeries record options steps others)

/-- The series of a query for one subject. -/
def series (query : Query) (run : RunRecord) (options : Options) (record : Record) :
    Except Error (List Float) := do
  let steps ← selectedSteps run record options
  return query.valuesAt run record options steps

end Query

/-! ## Means -/

/-- The mean of some values. -/
def mean (values : List Float) : Float :=
  values.foldl (· + ·) 0.0 / values.length.toFloat

/-- The greatest length of some series. -/
def greatestLength (series : List (List Float)) : Nat :=
  series.foldl (fun n values => if n < values.length then values.length else n) 0

/-- The mean at each place of the series that reach it. -/
def average (series : List (List Float)) : List Float :=
  let columns := series.map List.toArray
  (List.range (greatestLength series)).map fun i => mean (columns.filterMap fun column => column[i]?)

/-! ## Answers -/

namespace Experiment

/-- The run that options ask for. -/
def selectRun (experiment : Experiment) (options : Options) : Except Error RunRecord :=
  match options.runLabel with
  | some label =>
    match experiment.get? label with
    | some run => .ok run
    | none => .error (.unanswerable (.unknownRun label))
  | none =>
    match experiment.first? with
    | some run => .ok run.2
    | none => .error (.unanswerable .noOutput)

/-- The answer for the selected subjects of a run. -/
def answer (run : RunRecord) (query : Query) (options : Options) : Except Error Evaluation :=
  match options.selection with
  | .index i =>
    match run.subjects[i]? with
    | some record => (query.series run options record).map .series
    | none => .error (.unanswerable (.subjectIndex i run.subjects.length))
  | .all => (run.subjects.mapM (query.series run options)).map .perSubject
  | .average => (run.subjects.mapM (query.series run options)).map fun all => .series (average all)

/-- The answer to a query. -/
def evaluate (experiment : Experiment) (expression : Expression) (options : Options) :
    Except Error Evaluation := do
  let run ← experiment.selectRun options
  let query ← Query.resolve run expression options
  answer run query options

end Experiment

end Conditioning
