import Conditioning.Query.Evaluation
import Conditioning.Report.Json
import Conditioning.Script.Assembly

/-!
# Reports

The report of a script says what its comment blocks say, what every plot and
export evaluates to, and how long every run was.  The members of its objects
are in alphabetical order.
-/

namespace Conditioning

/-- How long a run was. -/
structure Summary where
  label : String
  phases : List String
  hasSalience : Bool
  /-- The number of stimuli that each subject saw. -/
  steps : List Nat
deriving DecidableEq, Repr

/-- The summaries of the runs in order. -/
def Experiment.summaries (experiment : Experiment) : List Summary :=
  experiment.runs.map fun run =>
    ⟨run.1, run.2.phaseLabels, run.2.hasSalience, run.2.subjects.map fun record => record.history.size⟩

/-- What a plot or an export evaluates to. -/
structure PlotResult where
  expression : Expression
  filename : Option String
  values : Evaluation

/-- What a script has to report. -/
structure Report where
  /-- The text of the comment blocks. -/
  comment : String
  /-- The results of plots and exports in order. -/
  results : List PlotResult
  /-- The summaries of the runs in order. -/
  runs : List Summary

namespace Report

/-! ## Making a report -/

/-- The result of a plot or an export. -/
def resultOf (experiment : Experiment) (plot : Plot) : Except Error PlotResult := do
  let values ← experiment.evaluate plot.expression plot.options
  return ⟨plot.expression, plot.options.filename, values⟩

/-- The report of a script and what it recorded. -/
def make (script : Script) (experiment : Experiment) : Except Error Report := do
  let results ← script.plots.mapM (resultOf experiment)
  return ⟨script.commentText, results, experiment.summaries⟩

/-! ## Writing a report -/

/-- A series as a value. -/
def seriesJson (values : List Float) : Json := .array (values.map .number)

/-- An answer as a value. -/
def evaluationJson : Evaluation → Json
  | .series values => seriesJson values
  | .perSubject values => .array (values.map seriesJson)

/-- A text or nothing as a value. -/
def optionalText : Option String → Json
  | some text => .text text
  | none => .null

/-- A result as a value. -/
def resultJson (result : PlotResult) : Json :=
  .object [
    ("export", optionalText result.filename),
    ("expression", .text result.expression.toText),
    ("values", evaluationJson result.values)]

/-- A summary as a value. -/
def summaryJson (summary : Summary) : Json :=
  .object [
    ("has_w", .bool summary.hasSalience),
    ("label", .text summary.label),
    ("phases", .array (summary.phases.map .text)),
    ("steps", .array (summary.steps.map .natural))]

/-- A report as a value. -/
def toJson (report : Report) : Json :=
  .object [
    ("comment", .text report.comment),
    ("results", .array (report.results.map resultJson)),
    ("runs", .array (report.runs.map summaryJson))]

end Report

end Conditioning
