import Conditioning.Query.Pattern

/-!
# Evaluation options

Options say which run and which subjects are asked, at which steps, and how
occurrences are counted.  They are read from a dict, one property after the
other; the property `beta` is allowed and means nothing.
-/

namespace Conditioning

/-- The subjects that are asked. -/
inductive Selection where
  /-- The mean over all of them. -/
  | average
  | all
  | index (index : Nat)
deriving DecidableEq, Repr

/-- How a query is evaluated. -/
structure Options where
  /-- The run; the first one if unset. -/
  runLabel : Option String
  selection : Selection
  /-- The phases whose steps count; all steps if there are none. -/
  phases : List String
  /-- The pattern at whose steps values are taken. -/
  steps : Option Pattern
  cumulative : Bool
  /-- Whether the steps' pattern allows no other elements. -/
  exactSteps : Bool
  /-- Whether the counted pattern allows no other elements. -/
  exactN : Bool
  filename : Option String

namespace Options

/-- The mean over the subjects of the first run at all its steps, counts added up. -/
def default : Options := ⟨none, .average, [], none, true, false, false, none⟩

/-- The text of a property. -/
def textOf (property : String) (value : Literal) : Except Error String :=
  match value.asText? with
  | some text => .ok text
  | none => .error (.malformed (.textOption property value))

/-- The state of a switch. -/
def switchOf (property : String) (value : Literal) : Except Error Bool :=
  match value.asText? with
  | some text =>
    if text = "on" then .ok true
    else if text = "off" then .ok false
    else .error (.malformed (.switchOption property value))
  | none => .error (.malformed (.switchOption property value))

/-- The selection that a literal names. -/
def selectionOf (value : Literal) : Except Error Selection :=
  match value with
  | .str text =>
    if text = "average" then .ok .average
    else if text = "all" then .ok .all
    else .error (.malformed (.subjectOption value))
  | .int n =>
    if 0 ≤ n.toInt then .ok (.index n.toInt.toNat)
    else .error (.malformed (.subjectOption value))
  | _ => .error (.malformed (.subjectOption value))

/-- The phases that a literal names. -/
def phasesOf (value : Literal) : Except Error (List String) :=
  match value.asNames? with
  | some names => .ok names
  | none => .error (.malformed (.phaseOption value))

/-- Set one property. -/
def set (options : Options) (property : String) (value : Literal) : Except Error Options :=
  match property with
  | "runlabel" => do
    let label ← textOf property value
    return { options with runLabel := some label }
  | "subject" => do
    let selection ← selectionOf value
    return { options with selection }
  | "phase" => do
    let phases ← phasesOf value
    return { options with phases }
  | "steps" => do
    let pattern ← Pattern.ofLiteral value
    return { options with steps := some pattern }
  | "cumulative" => do
    let cumulative ← switchOf property value
    return { options with cumulative }
  | "exact_steps" => do
    let exactSteps ← switchOf property value
    return { options with exactSteps }
  | "exact_n" => do
    let exactN ← switchOf property value
    return { options with exactN }
  | "filename" => do
    let filename ← textOf property value
    return { options with filename := some filename }
  | "beta" => .ok options
  | _ => .error (.malformed (.unknownOption property))

/-- Set the property of an entry, whose key has to be a text. -/
def setEntry (options : Options) (entry : Literal × Literal) : Except Error Options :=
  match entry.1.asText? with
  | some property => options.set property entry.2
  | none => .error (.malformed (.optionKey entry.1))

/-- The options that a dict sets. -/
def ofDict (dict : Dict) : Except Error Options :=
  dict.entries.foldlM setEntry default

end Options

end Conditioning
