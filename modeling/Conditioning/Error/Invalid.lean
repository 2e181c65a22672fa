import Conditioning.Literal.Printer

/-!
# Inconsistent settings

The ways in which settings and phases of the right form contradict each other
or leave something open.
-/

namespace Conditioning

/-- What is inconsistent. -/
inductive Invalid where
  /-- A list of names is empty. -/
  | noNames (list : String)
  /-- A name is empty. -/
  | emptyName (list : String)
  /-- A name is listed twice. -/
  | repeatedName (name list : String)
  /-- A name is both an element and a behavior. -/
  | sharedName (name : String)
  /-- A list of names holds something else. -/
  | notNames (parameter : String) (got : Literal)
  /-- The mechanism is not named by a text. -/
  | mechanismName (got : Literal)
  /-- The number of subjects is no positive integer. -/
  | subjects (got : Literal)
  /-- `beta` is no number. -/
  | beta (got : Literal)
  /-- A table is neither a number nor a dict. -/
  | table (parameter : String) (got : Literal)
  /-- A value of a table is no number. -/
  | tableValue (parameter : String) (got : Literal)
  /-- A table that must have a default has none. -/
  | noDefault (parameter : String)
  /-- A table has no default and leaves a slot open. -/
  | notExhaustive (parameter : String)
  /-- A key is no element. -/
  | elementKey (parameter : String) (got : Literal)
  /-- A key is no behavior. -/
  | behaviorKey (parameter : String) (got : Literal)
  /-- A key is no pair of an element and a behavior. -/
  | pairKey (parameter : String) (got : Literal)
  /-- The elements without learning are no names. -/
  | omitLearning (got : Literal)
  /-- The requirements are no dict. -/
  | requirements (got : Literal)
  /-- The elements that a behavior requires are no names. -/
  | requirementValue (got : Literal)
  /-- No behavior is possible for an element. -/
  | noBehavior (element : String)
  /-- A phase has no rows. -/
  | noLines (phase : String)
  /-- A line is called like an element. -/
  | labelIsElement (label : String)
  /-- A line is called like a behavior. -/
  | labelIsBehavior (label : String)
  /-- Two lines of a phase have one label. -/
  | repeatedLabel (label phase : String)
  /-- A probability is none. -/
  | notProbability (text : String)
  /-- Two edges of a condition have one target. -/
  | repeatedTarget (label edges : String)
  /-- The probabilities of a condition are more than one together. -/
  | excessProbability (edges : String) (sum : Float)
  /-- The last condition of a line may lead nowhere. -/
  | unassignedProbability (line phase : String)
  /-- An end condition counts nothing that there is. -/
  | endKey (key phase : String)
  /-- A run has no phases. -/
  | noPhases

namespace Invalid

/-- The wording of an inconsistency. -/
def message : Invalid → String
  | noNames list => s!"'{list}' must not be empty"
  | emptyName list => s!"empty name in '{list}'"
  | repeatedName name list => s!"'{name}' is duplicated in '{list}'"
  | sharedName name => s!"'{name}' is declared both as a stimulus element and a behavior"
  | notNames parameter got => s!"'{parameter}' must be a list of strings, got {got.toText}"
  | mechanismName got => s!"'mechanism' must be a string, got {got.toText}"
  | subjects got => s!"'subjects' must be a positive integer, got {got.toText}"
  | beta got => s!"'beta' must be a number, got {got.toText}"
  | table parameter got => s!"'{parameter}' must be a number or a dict, got {got.toText}"
  | tableValue parameter got => s!"values in '{parameter}' must be numbers, got {got.toText}"
  | noDefault parameter =>
    s!"the parameter '{parameter}' must have the key 'default' when given as a dict"
  | notExhaustive parameter =>
    s!"the parameter '{parameter}' must have the key 'default' or be exhaustive"
  | elementKey parameter got =>
    s!"keys in '{parameter}' must be stimulus elements or 'default', got {got.toText}"
  | behaviorKey parameter got =>
    s!"keys in '{parameter}' must be behaviors or 'default', got {got.toText}"
  | pairKey parameter got =>
    s!"keys in '{parameter}' must be (element, behavior) tuples or 'default', got {got.toText}"
  | omitLearning got =>
    s!"'omit_learning' must be a list of stimulus elements, got {got.toText}"
  | requirements got => s!"'response_requirements' must be a dict, got {got.toText}"
  | requirementValue got =>
    "values in 'response_requirements' must be a stimulus element or a list of them, got " ++
      got.toText
  | noBehavior element =>
    s!"stimulus element '{element}' has no feasible behavior in 'response_requirements'"
  | noLines phase => s!"phase '{phase}' has no lines"
  | labelIsElement label =>
    s!"the phase line label '{label}' coincides with the name of a stimulus element"
  | labelIsBehavior label =>
    s!"the phase line label '{label}' coincides with the name of a behavior"
  | repeatedLabel label phase => s!"line label '{label}' is duplicated in phase '{phase}'"
  | notProbability text => s!"expected a probability, got '{text}'"
  | repeatedTarget label edges => s!"label '{label}' duplicated in '{edges}'"
  | excessProbability edges sum =>
    s!"sum of probabilities in '{edges}' is {Decimal.plainText sum} > 1"
  | unassignedProbability line phase =>
    s!"the last condition of line '{line}' in phase '{phase}' leaves probability unassigned"
  | endKey key phase =>
    s!"end condition key '{key}' of phase '{phase}' is not a line label, stimulus element or " ++
      "behavior"
  | noPhases => "a run needs at least one phase"

end Invalid

end Conditioning
