import Conditioning.Phase.Text
import Conditioning.Run
import Conditioning.Script.Block
import Conditioning.Script.Directive

/-!
# Assembling a script

The blocks of a script are taken in order.  Settings add up, and phases are
gathered by label: a block of a phase already there adds its rows and replaces
its end.  A run takes the settings and phases as they stand where it is
declared.  Phases and runs without a label are numbered.
-/

namespace Conditioning

/-- A script. -/
structure Script where
  comment : List String
  /-- The settings at the end of the script. -/
  parameters : Parameters
  phases : List PhaseText
  runs : List Run
  directives : List Directive

/-- A script in the making. -/
structure Draft where
  script : Script
  /-- The number of phases without a label. -/
  unnamedPhases : Nat
  /-- The number of runs without a label. -/
  unnamedRuns : Nat

namespace Script

/-- The script without blocks. -/
def empty : Script := ⟨[], Parameters.empty, [], [], []⟩

/-- The text of the comment blocks. -/
def commentText (script : Script) : String := String.intercalate "\n" script.comment

/-- The plots and exports in order. -/
def plots (script : Script) : List Plot :=
  script.directives.filterMap fun directive =>
    match directive with
    | .plot plot => some plot
    | _ => none

/-! ## Properties of blocks -/

/-- The property of a block that has to be a text if it is there. -/
def textProperty (properties : Dict) (property : String) (keyword : Keyword) :
    Except Error (Option String) :=
  match properties.get? property with
  | none => .ok none
  | some value =>
    match value.asText? with
    | some text => .ok (some text)
    | none => .error (.malformed (.propertyNotText property keyword value))

/-- Whether the key of an entry is one of the known properties. -/
def isKnown (known : List String) (entry : Literal × Literal) : Bool :=
  match entry.1.asText? with
  | some property => known.contains property
  | none => false

/-- Properties have to be known. -/
def checkProperties (properties : Dict) (known : List String) (keyword : Keyword) :
    Except Error Unit :=
  match properties.entries.find? fun entry => !isKnown known entry with
  | some entry => .error (.malformed (.unknownProperty entry.1 keyword))
  | none => .ok ()

/-! ## Phases -/

/-- Put a block of a phase into a list of phases. -/
def putPhase (label ending : String) (rows : List String) : List PhaseText → List PhaseText
  | [] => [⟨label, ending, rows⟩]
  | phase :: phases =>
    if phase.label = label then ⟨label, ending, phase.rows ++ rows⟩ :: phases
    else phase :: putPhase label ending rows phases

/-- The phase of a label. -/
def phase? (script : Script) (label : String) : Option PhaseText :=
  script.phases.find? fun phase => phase.label == label

/-! ## Runs -/

/-- The phases that a run names, all of them if it names none. -/
def selectPhases (script : Script) (labels : List String) : Except Error (List PhaseText) :=
  if labels.isEmpty then .ok script.phases
  else labels.mapM fun label =>
    match script.phase? label with
    | some phase => .ok phase
    | none => .error (.unknownPhase label)

/-- The labels that the property of a run gives. -/
def phaseLabels (value : Option Literal) : Except Error (List String) :=
  match value with
  | none => .ok []
  | some value =>
    match value.asNames? with
    | some labels => .ok labels
    | none => .error (.malformed (.runPhases value))

/-- The run of a label and a choice of phases, with the settings as they stand. -/
def buildRun (script : Script) (label : String) (choice : Option Literal) : Except Error Run := do
  let labels ← phaseLabels choice
  let texts ← script.selectPhases labels
  let mechanism ← Mechanism.ofParameters script.parameters
  let phases ← texts.mapM fun text => text.compile mechanism.vocabulary
  let world ← World.ofPhases phases
  let subjects ← script.parameters.subjects
  return ⟨label, world, mechanism, subjects⟩

/-! ## Settings -/

/-- Merge a literal, which has to be a dict, into settings. -/
def mergeSettings (parameters : Parameters) (value : Literal) : Except Error Parameters :=
  match value.asDict? with
  | some block => parameters.merge? block
  | none => .error (.malformed (.parametersNotDict value))

end Script

namespace Draft

/-- Nothing assembled. -/
def empty : Draft := ⟨Script.empty, 0, 0⟩

/-- Add a block of comment. -/
def addComment (draft : Draft) (block : Block) : Draft :=
  { draft with script := { draft.script with comment := draft.script.comment ++ block.lines } }

/-- Add a block of settings. -/
def addParameters (draft : Draft) (block : Block) : Except Error Draft := do
  let values ← readLiterals block.arguments
  let parameters ← values.foldlM Script.mergeSettings draft.script.parameters
  return { draft with script := { draft.script with parameters } }

/-- Add a block of a phase. -/
def addPhase (draft : Draft) (block : Block) : Except Error Draft := do
  let properties ← block.properties
  let given ← Script.textProperty properties "label" .phase
  let unnamedPhases := if given.isSome then draft.unnamedPhases else draft.unnamedPhases + 1
  let label := given.getD ("phase" ++ Decimal.naturalText unnamedPhases)
  match ← Script.textProperty properties "end" .phase with
  | none => throw (.missingEnd label)
  | some ending =>
    Script.checkProperties properties ["label", "end"] .phase
    let phases := Script.putPhase label ending block.body draft.script.phases
    return { draft with script := { draft.script with phases }, unnamedPhases }

/-- Add a run. -/
def addRun (draft : Draft) (block : Block) : Except Error Draft := do
  let properties ← block.properties
  Script.checkProperties properties ["label", "phases"] .run
  let given ← Script.textProperty properties "label" .run
  let unnamedRuns := if given.isSome then draft.unnamedRuns else draft.unnamedRuns + 1
  let label := given.getD ("run" ++ Decimal.naturalText unnamedRuns)
  if draft.script.runs.any fun run => run.label == label then throw (.duplicateRunLabel label)
  let run ← draft.script.buildRun label (properties.get? "phases")
  return { draft with
    script := { draft.script with runs := draft.script.runs ++ [run] }, unnamedRuns }

/-- Add a directive. -/
def addDirective (draft : Draft) (block : Block) : Except Error Draft := do
  let directive ← Directive.parse block.keyword block.arguments
  return { draft with
    script := { draft.script with directives := draft.script.directives ++ [directive] } }

/-- Add a block. -/
def addBlock (draft : Draft) (block : Block) : Except Error Draft :=
  match block.keyword with
  | .comment => .ok (draft.addComment block)
  | .parameters => draft.addParameters block
  | .phase => draft.addPhase block
  | .run => draft.addRun block
  | _ => draft.addDirective block

end Draft

namespace Script

/-- The script of some blocks. -/
def ofBlocks (blocks : List Block) : Except Error Script :=
  (blocks.foldlM Draft.addBlock Draft.empty).map Draft.script

/-- The script that a text stands for. -/
def parse (text : String) : Except Error Script := do
  let blocks ← blocksOf (cleanLines text.toList)
  ofBlocks blocks

/-- Simulate every run, each subject for as many steps as the budget allows. -/
def simulate (script : Script) (budget : Nat) (seed : UInt64) : Except Halt Experiment :=
  simulateAll budget Experiment.empty (Generator.ofSeed seed) script.runs

end Script

end Conditioning
