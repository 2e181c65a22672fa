import Conditioning.Text.Lowercase
import Conditioning.Vocabulary

/-!
# Parameters

The settings of the runs are one dict.  Blocks of settings are merged into it
in the order of the script, so a later block overrides an earlier one.  A block
is taken up to its first key that is no text.  Unknown keys are kept and mean
nothing.
-/

namespace Conditioning

/-! ## The names of the settings -/

namespace Parameter

/-- The learning rule. -/
def mechanism : String := "mechanism"

/-- The number of subjects. -/
def subjects : String := "subjects"

/-- The declared behaviors. -/
def behaviors : String := "behaviors"

/-- The declared elements. -/
def elements : String := "stimulus_elements"

/-- The first values of the weights. -/
def startV : String := "start_v"

/-- The first values of the saliences; checked, and not used. -/
def startW : String := "start_w"

/-- The utilities of the elements. -/
def utility : String := "u"

/-- The costs of the behaviors. -/
def cost : String := "behavior_cost"

/-- A short name of the costs. -/
def shortCost : String := "c"

/-- The learning rates of the weights. -/
def alphaV : String := "alpha_v"

/-- The learning rates of the saliences. -/
def alphaW : String := "alpha_w"

/-- The exploitation parameter. -/
def beta : String := "beta"

/-- The elements in whose presence nothing is learned. -/
def omitLearning : String := "omit_learning"

/-- The elements that each behavior requires. -/
def requirements : String := "response_requirements"

/-- The key that stands for every slot not listed. -/
def rest : String := "default"

end Parameter

/-- The settings in force. -/
structure Parameters where
  values : Dict

namespace Parameters

/-- No settings. -/
def empty : Parameters := ⟨Dict.empty⟩

/-- Whether the key of an entry is a text. -/
def isNamed (entry : Literal × Literal) : Bool := entry.1.asText?.isSome

/-- Merge a block of settings up to its first key that is no text. -/
def merge (p : Parameters) (block : Dict) : Parameters :=
  ⟨p.values.merge ⟨block.entries.takeWhile isNamed⟩⟩

/-- The error of a block that has a key that is no text. -/
def refusal? (block : Dict) : Option Error :=
  (block.entries.find? fun entry => !isNamed entry).map fun entry =>
    .malformed (.parameterKey entry.1)

/-- Merge a block of settings whose keys are all texts. -/
def merge? (p : Parameters) (block : Dict) : Except Error Parameters :=
  match refusal? block with
  | some error => .error error
  | none => .ok (p.merge block)

/-- Give one setting a value. -/
def set (p : Parameters) (name : String) (value : Literal) : Parameters :=
  ⟨p.values.put (.str name) value⟩

/-- The value of a setting. -/
def get? (p : Parameters) (name : String) : Option Literal := p.values.get? name

/-- Whether a setting has a value. -/
def contains (p : Parameters) (name : String) : Bool := p.values.contains name

/-- The costs, under their long name if they have a value there, else under the short one. -/
def cost? (p : Parameters) : Option Literal :=
  (p.get? Parameter.cost).or (p.get? Parameter.shortCost)

/-- A required list of names. -/
def names (p : Parameters) (parameter : String) : Except Error (List String) :=
  match p.get? parameter with
  | none => .error (.missingParameter parameter)
  | some value =>
    match value.asNames? with
    | some names => .ok names
    | none => .error (.invalid (.notNames parameter value))

/-- The declared vocabulary. -/
def vocabulary (p : Parameters) : Except Error Vocabulary := do
  let elements ← p.names Parameter.elements
  let behaviors ← p.names Parameter.behaviors
  Vocabulary.ofNames elements behaviors

/-- The name of the learning rule, in small letters. -/
def mechanismName (p : Parameters) : Except Error String :=
  match p.get? Parameter.mechanism with
  | none => .error (.missingParameter Parameter.mechanism)
  | some value =>
    match value.asText? with
    | some name => .ok (Text.lowercase name)
    | none => .error (.invalid (.mechanismName value))

/-- The number of subjects, one if it is not set. -/
def subjects (p : Parameters) : Except Error Nat :=
  match p.get? Parameter.subjects with
  | none => .ok 1
  | some value =>
    match value.asInteger? with
    | some n => if 0 < n then .ok n.toNat else .error (.invalid (.subjects value))
    | none => .error (.invalid (.subjects value))

/-- The exploitation parameter, one if it is not set. -/
def beta (p : Parameters) : Except Error Float :=
  match p.get? Parameter.beta with
  | none => .ok 1.0
  | some value =>
    match value.asNumber? with
    | some x => .ok x
    | none => .error (.invalid (.beta value))

end Parameters

end Conditioning
