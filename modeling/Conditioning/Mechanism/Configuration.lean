import Conditioning.Mechanism.Response
import Conditioning.Mechanism.Rule
import Conditioning.Parameters
import Conditioning.Table

/-!
# Configuration of a mechanism

Every setting of a mechanism is a table with a cell for each element, each
behavior or each pair.  In the settings of a script a table is one number for
all cells, or a dict that lists cells by name.  A dict either has a default for
the cells it does not list, or, where that is allowed, lists all of them.

The behaviors possible for an element are given the other way round, as the
elements that a behavior requires.  A behavior that is not listed requires
nothing, and every element must be left with a behavior.
-/

namespace Conditioning

/-- The settings of a mechanism. -/
structure Configuration (α : Type) where
  vocabulary : Vocabulary
  /-- The first weight of each pair. -/
  startV : Table α
  utility : Table α
  cost : Table α
  /-- The learning rate of each pair's weight. -/
  alphaV : Table α
  /-- The learning rate of each element's salience. -/
  alphaW : Table α
  omitLearning : Array Bool
  response : ResponseModel α

namespace Configuration

/-! ## Defaults -/

/-- Weights, utilities and costs are zero, rates and `beta` one, nothing suppresses learning, and
every behavior is possible for every element. -/
def default {α : Type} [Scalar α] (vocabulary : Vocabulary) : Configuration α where
  vocabulary := vocabulary
  startV := Table.fill vocabulary.pairCount Scalar.zero
  utility := Table.fill vocabulary.elementCount Scalar.zero
  cost := Table.fill vocabulary.behaviorCount Scalar.zero
  alphaV := Table.fill vocabulary.pairCount Scalar.one
  alphaW := Table.fill vocabulary.elementCount Scalar.one
  omitLearning := Array.replicate vocabulary.elementCount false
  response := ⟨Scalar.one,
    Array.replicate vocabulary.elementCount (List.range vocabulary.behaviorCount)⟩

/-! ## Tables of a script -/

/-- Which cells a dict without a default has to list. -/
inductive Coverage where
  | defaultOrAll
  /-- There has to be a default. -/
  | defaultOnly
deriving DecidableEq, Repr

/-- Whether an entry gives the default. -/
def isDefault (entry : Literal × Literal) : Bool :=
  entry.1.asText? == some Parameter.rest

/-- A number of a table. -/
def tableNumber (parameter : String) (value : Literal) : Except Error Float :=
  match value.asNumber? with
  | some x => .ok x
  | none => .error (.invalid (.tableValue parameter value))

/-- The default of a table, if it has one. -/
def tableDefault (parameter : String) (dict : Dict) : Except Error (Option Float) :=
  match dict.get? Parameter.rest with
  | none => .ok none
  | some value => (tableNumber parameter value).map some

/-- The cells that a dict lists, with their numbers. -/
def listedCells (parameter : String) (slot : Literal → Except Error Nat) (dict : Dict) :
    Except Error (List (Nat × Float)) :=
  (dict.entries.filter fun entry => !isDefault entry).mapM fun entry => do
    let cell ← slot entry.1
    let x ← tableNumber parameter entry.2
    return (cell, x)

/-- The table of a default and listed cells. -/
def assemble (size : Nat) (rest : Float) (listed : List (Nat × Float)) : Table Float :=
  listed.foldl (fun t cell => t.put cell.1 cell.2) (Table.fill size rest)

/-- Whether every cell is listed. -/
def coversAll (size : Nat) (listed : List (Nat × Float)) : Bool :=
  (List.range size).all fun i => listed.any fun cell => cell.1 == i

/-- The table that a setting stands for, `fallback` in every cell if it is not set. -/
def expand (setting : Option Literal) (parameter : String) (size : Nat) (fallback : Float)
    (coverage : Coverage) (slot : Literal → Except Error Nat) : Except Error (Table Float) :=
  match setting with
  | none => .ok (Table.fill size fallback)
  | some value =>
    match value.asNumber?, value.asDict? with
    | some x, _ => .ok (Table.fill size x)
    | none, none => .error (.invalid (.table parameter value))
    | none, some dict => do
      let rest ← tableDefault parameter dict
      let listed ← listedCells parameter slot dict
      match rest, coverage with
      | some x, _ => return assemble size x listed
      | none, .defaultOnly => throw (.invalid (.noDefault parameter))
      | none, .defaultOrAll =>
        if coversAll size listed then return assemble size 0.0 listed
        else throw (.invalid (.notExhaustive parameter))

/-! ## Cells by name -/

/-- A parameter's name in quotes, as the place of an error. -/
def placeOf (parameter : String) : String := s!"'{parameter}'"

/-- The element that a key names. -/
def elementSlot (vocabulary : Vocabulary) (parameter : String) (key : Literal) :
    Except Error ElementId :=
  match key.asText? with
  | some name => vocabulary.element name (placeOf parameter)
  | none => .error (.invalid (.elementKey parameter key))

/-- The behavior that a key names. -/
def behaviorSlot (vocabulary : Vocabulary) (parameter : String) (key : Literal) :
    Except Error BehaviorId :=
  match key.asText? with
  | some name => vocabulary.behavior name (placeOf parameter)
  | none => .error (.invalid (.behaviorKey parameter key))

/-- The pair that a key names. -/
def pairSlot (vocabulary : Vocabulary) (parameter : String) (key : Literal) : Except Error Nat :=
  match key with
  | .tuple [.str elementName, .str behaviorName] => do
    let element ← vocabulary.element elementName (placeOf parameter)
    let behavior ← vocabulary.behavior behaviorName (placeOf parameter)
    return vocabulary.pair element behavior
  | _ => .error (.invalid (.pairKey parameter key))

/-! ## Requirements -/

/-- A listed behavior and the elements that it requires. -/
def requirementRow (vocabulary : Vocabulary) (entry : Literal × Literal) :
    Except Error (BehaviorId × List ElementId) := do
  let behavior ← behaviorSlot vocabulary Parameter.requirements entry.1
  match entry.2.asNames? with
  | none => throw (.invalid (.requirementValue entry.2))
  | some names =>
    let elements ← names.mapM fun name =>
      vocabulary.element name (placeOf Parameter.requirements)
    return (behavior, elements)

/-- The elements that each listed behavior requires. -/
def requirementRows (vocabulary : Vocabulary) (dict : Dict) :
    Except Error (List (BehaviorId × List ElementId)) :=
  dict.entries.mapM (requirementRow vocabulary)

/-- Whether a behavior is possible for an element. -/
def allows (rows : List (BehaviorId × List ElementId)) (behavior : BehaviorId)
    (element : ElementId) : Bool :=
  match rows.find? fun row => row.1 == behavior with
  | none => true
  | some row => row.2.contains element

/-- The possible behaviors of each element. -/
def invertRows (vocabulary : Vocabulary) (rows : List (BehaviorId × List ElementId)) :
    List (List BehaviorId) :=
  (List.range vocabulary.elementCount).map fun element =>
    (List.range vocabulary.behaviorCount).filter fun behavior => allows rows behavior element

/-- The possible behaviors of each element under a setting of requirements. -/
def invertRequirements (vocabulary : Vocabulary) (setting : Literal) :
    Except Error (Array (List BehaviorId)) :=
  match setting.asDict? with
  | none => .error (.invalid (.requirements setting))
  | some dict => do
    let rows ← requirementRows vocabulary dict
    let feasible := invertRows vocabulary rows
    match feasible.idxOf? [] with
    | some element => throw (.invalid (.noBehavior (vocabulary.elementName element)))
    | none => return feasible.toArray

/-- The possible behaviors of each element, all of them unless a setting requires more. -/
def possible (vocabulary : Vocabulary) (p : Parameters) : Except Error (Array (List BehaviorId)) :=
  match p.get? Parameter.requirements with
  | none => .ok (Array.replicate vocabulary.elementCount (List.range vocabulary.behaviorCount))
  | some setting => invertRequirements vocabulary setting

/-! ## Elements without learning -/

/-- Mark the elements of a setting that suppress learning. -/
def markOmitted (vocabulary : Vocabulary) (setting : Literal) : Except Error (Array Bool) :=
  match setting.asNames? with
  | none => .error (.invalid (.omitLearning setting))
  | some names => do
    let elements ← names.mapM fun name => vocabulary.element name Parameter.omitLearning
    return elements.foldl (fun marks element => marks.setIfInBounds element true)
      (Array.replicate vocabulary.elementCount false)

/-- The marks of the elements that suppress learning, of which there are none unless a setting
lists some. -/
def omitted (vocabulary : Vocabulary) (p : Parameters) : Except Error (Array Bool) :=
  match p.get? Parameter.omitLearning with
  | none => .ok (Array.replicate vocabulary.elementCount false)
  | some setting => markOmitted vocabulary setting

/-! ## The settings of a script -/

/-- First saliences have to be a number or a dict, and are not used otherwise. -/
def checkStartW (p : Parameters) : Except Error Unit :=
  match p.get? Parameter.startW with
  | none => .ok ()
  | some value =>
    if value.asNumber?.isSome || value.asDict?.isSome then .ok ()
    else .error (.invalid (.table Parameter.startW value))

/-- The configuration that the settings of a script stand for. -/
def ofParameters (p : Parameters) : Except Error (Configuration Float) := do
  let vocabulary ← p.vocabulary
  let startV ← expand (p.get? Parameter.startV) Parameter.startV vocabulary.pairCount 0.0
    .defaultOrAll (pairSlot vocabulary Parameter.startV)
  let utility ← expand (p.get? Parameter.utility) Parameter.utility vocabulary.elementCount 0.0
    .defaultOrAll (elementSlot vocabulary Parameter.utility)
  let cost ← expand p.cost? Parameter.cost vocabulary.behaviorCount 0.0
    .defaultOrAll (behaviorSlot vocabulary Parameter.cost)
  let alphaV ← expand (p.get? Parameter.alphaV) Parameter.alphaV vocabulary.pairCount 1.0
    .defaultOnly (pairSlot vocabulary Parameter.alphaV)
  let alphaW ← expand (p.get? Parameter.alphaW) Parameter.alphaW vocabulary.elementCount 1.0
    .defaultOnly (elementSlot vocabulary Parameter.alphaW)
  checkStartW p
  let beta ← p.beta
  let omitLearning ← omitted vocabulary p
  let feasible ← possible vocabulary p
  return { vocabulary, startV, utility, cost, alphaV, alphaW, omitLearning,
           response := ⟨beta, feasible⟩ }

end Configuration

end Conditioning
