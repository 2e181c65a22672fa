import Conditioning.Record

/-!
# Experiments

The record of a run holds the records of its subjects and what is needed to
ask for them by name.  An experiment holds the records of its runs by label, in
the order of the runs; a label that comes again keeps its place and gets the
new record.
-/

namespace Conditioning

/-- What one run recorded. -/
structure RunRecord where
  vocabulary : Vocabulary
  hasSalience : Bool
  response : ResponseModel Float
  /-- The labels of the phases in order. -/
  phaseLabels : List String
  /-- The records of the subjects in order. -/
  subjects : List Record

/-- The first phase of a label. -/
def RunRecord.phase? (run : RunRecord) (label : String) : Option Nat :=
  run.phaseLabels.idxOf? label

/-- The records of runs by label. -/
structure Experiment where
  runs : List (String × RunRecord)

namespace Experiment

/-- No runs. -/
def empty : Experiment := ⟨[]⟩

/-- Put a run into a list of runs. -/
def putRun (label : String) (run : RunRecord) :
    List (String × RunRecord) → List (String × RunRecord)
  | [] => [(label, run)]
  | (name, old) :: runs =>
    if name = label then (name, run) :: runs else (name, old) :: putRun label run runs

/-- Put a run under its label. -/
def put (experiment : Experiment) (label : String) (run : RunRecord) : Experiment :=
  ⟨putRun label run experiment.runs⟩

/-- The run of a label. -/
def get? (experiment : Experiment) (label : String) : Option RunRecord :=
  (experiment.runs.find? fun run => run.1 == label).map Prod.snd

/-- The first run. -/
def first? (experiment : Experiment) : Option (String × RunRecord) := experiment.runs.head?

/-- The labels of the runs in order. -/
def labels (experiment : Experiment) : List String := experiment.runs.map Prod.fst

/-- The number of runs. -/
def size (experiment : Experiment) : Nat := experiment.runs.length

theorem map_fst_putRun (label : String) (run : RunRecord) (runs : List (String × RunRecord)) :
    (putRun label run runs).map Prod.fst =
      if label ∈ runs.map Prod.fst then runs.map Prod.fst else runs.map Prod.fst ++ [label] := by
  induction runs with
  | nil => rfl
  | cons entry runs ih =>
    obtain ⟨name, old⟩ := entry
    by_cases h : name = label
    · simp [putRun, h]
    · have h' : ¬label = name := fun he => h he.symm
      simp only [putRun, h, if_false, List.map_cons, ih, List.mem_cons, h', false_or]
      split <;> rfl

theorem labels_put (experiment : Experiment) (label : String) (run : RunRecord) :
    (experiment.put label run).labels =
      if label ∈ experiment.labels then experiment.labels else experiment.labels ++ [label] :=
  map_fst_putRun label run experiment.runs

end Experiment

end Conditioning
