import Conditioning.Error.Basic

/-!
# Vocabulary

An experiment declares the stimulus elements that can be shown and the
behaviors that can be shown in return.  No name is empty, declared twice, or
declared as both.  From there on elements and behaviors are numbers: their
places in the two lists.  The pairs of an element and a behavior are numbered
row by row, one row for each element.
-/

namespace Conditioning

/-- The place of an element in its list. -/
abbrev ElementId := Nat

/-- The place of a behavior in its list. -/
abbrev BehaviorId := Nat

/-- The declared elements and behaviors. -/
structure Vocabulary where
  elements : List String
  behaviors : List String
deriving DecidableEq, Repr

/-- The elements shown together, in the order in which they are named. -/
structure Stimulus where
  elements : List ElementId
deriving DecidableEq, Repr

namespace Vocabulary

/-! ## Declaring -/

/-- The first fault of a list of names, those before it being given. -/
def checkNames (list : String) (before : List String) : List String → Except Error Unit
  | [] => .ok ()
  | name :: names =>
    if name = "" then .error (.invalid (.emptyName list))
    else if before.contains name then .error (.invalid (.repeatedName name list))
    else checkNames list (name :: before) names

/-- The vocabulary of two lists of names. -/
def ofNames (elements behaviors : List String) : Except Error Vocabulary :=
  if elements.isEmpty then .error (.invalid (.noNames "stimulus_elements"))
  else if behaviors.isEmpty then .error (.invalid (.noNames "behaviors"))
  else do
    checkNames "stimulus_elements" [] elements
    checkNames "behaviors" [] behaviors
    match elements.find? behaviors.contains with
    | some name => throw (.invalid (.sharedName name))
    | none => return ⟨elements, behaviors⟩

/-! ## Looking up -/

variable (vocabulary : Vocabulary)

/-- The number of elements. -/
def elementCount : Nat := vocabulary.elements.length

/-- The number of behaviors. -/
def behaviorCount : Nat := vocabulary.behaviors.length

/-- The number of pairs. -/
def pairCount : Nat := vocabulary.elementCount * vocabulary.behaviorCount

/-- The element of a name. -/
def element? (name : String) : Option ElementId := vocabulary.elements.idxOf? name

/-- The behavior of a name. -/
def behavior? (name : String) : Option BehaviorId := vocabulary.behaviors.idxOf? name

/-- The element of a name that has to be declared. -/
def element (name place : String) : Except Error ElementId :=
  match vocabulary.element? name with
  | some id => .ok id
  | none => .error (.unknownElement name place)

/-- The behavior of a name that has to be declared. -/
def behavior (name place : String) : Except Error BehaviorId :=
  match vocabulary.behavior? name with
  | some id => .ok id
  | none => .error (.unknownBehavior name place)

/-- The name of an element. -/
def elementName (id : ElementId) : String := vocabulary.elements.getD id ""

/-- The name of a behavior. -/
def behaviorName (id : BehaviorId) : String := vocabulary.behaviors.getD id ""

/-- The number of a pair. -/
def pair (element : ElementId) (behavior : BehaviorId) : Nat :=
  element * vocabulary.behaviorCount + behavior

theorem pair_lt {element : ElementId} {behavior : BehaviorId}
    (helement : element < vocabulary.elementCount) (hbehavior : behavior < vocabulary.behaviorCount) :
    vocabulary.pair element behavior < vocabulary.pairCount := by
  have hrow : (element + 1) * vocabulary.behaviorCount ≤ vocabulary.pairCount :=
    Nat.mul_le_mul_right _ helement
  have hcell : vocabulary.pair element behavior < (element + 1) * vocabulary.behaviorCount := by
    rw [pair, Nat.succ_mul]
    exact Nat.add_lt_add_left hbehavior _
  exact Nat.lt_of_lt_of_le hcell hrow

end Vocabulary

namespace Stimulus

/-- Whether an element is shown. -/
def contains (stimulus : Stimulus) (element : ElementId) : Bool :=
  stimulus.elements.contains element

/-- The text of a stimulus: one name, or all of them in parentheses. -/
def toText (stimulus : Stimulus) (vocabulary : Vocabulary) : String :=
  match stimulus.elements.map vocabulary.elementName with
  | [name] => name
  | names => "(" ++ String.intercalate "," names ++ ")"

end Stimulus

end Conditioning
