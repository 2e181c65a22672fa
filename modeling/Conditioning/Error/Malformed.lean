import Conditioning.Keyword
import Conditioning.Literal.Printer

/-!
# Malformed text

The ways in which the text of a script has the wrong form, with what a reader
of the script needs to find the place.
-/

namespace Conditioning

/-- How many arguments a directive takes. -/
inductive Arity where
  /-- At most so many. -/
  | upTo (greatest : Nat)
  /-- One or the other number. -/
  | either (one other : Nat)
  /-- A number between two. -/
  | between (least greatest : Nat)

/-- The wording of an arity. -/
def Arity.wording : Arity → String
  | upTo greatest => "<= " ++ Decimal.naturalText greatest
  | either one other => Decimal.naturalText one ++ " or " ++ Decimal.naturalText other
  | between least greatest =>
    "between " ++ Decimal.naturalText least ++ " and " ++ Decimal.naturalText greatest

/-- The part that a dict plays among the arguments of a directive. -/
inductive Role where
  /-- The properties of a figure. -/
  | properties
  /-- The properties of a subplot or a legend. -/
  | secondArgument
  /-- How a query is evaluated. -/
  | evaluation
  /-- How a curve is drawn. -/
  | drawing

/-- The wording of a role. -/
def Role.wording : Role → String
  | properties => "properties"
  | secondArgument => "second argument"
  | evaluation => "evaluation properties"
  | drawing => "plot properties"

/-- What is wrong with the form of a text. -/
inductive Malformed where
  /-- Text stands before the first keyword. -/
  | strayText (line : String)
  /-- A setting has a key that is no text. -/
  | parameterKey (key : Literal)
  /-- The settings are no dict. -/
  | parametersNotDict (got : Literal)
  /-- A property of a block is no text. -/
  | propertyNotText (property : String) (keyword : Keyword) (got : Literal)
  /-- A block has a property it does not know. -/
  | unknownProperty (key : Literal) (keyword : Keyword)
  /-- The phases of a run are no names. -/
  | runPhases (got : Literal)
  /-- A row of a phase is one word. -/
  | noStimulus (phase row : String)
  /-- A line has no bar. -/
  | noConditions (line : String)
  /-- A line names no element. -/
  | emptyStimulus (line : String)
  /-- A condition has two colons. -/
  | manyColons (condition : String)
  /-- A repeat count is no positive integer. -/
  | notInteger (text : String)
  /-- A bare label stands among other edges. -/
  | bareLabel (edges : String)
  /-- The parentheses of an edge are wrong. -/
  | badEdge (condition : String)
  /-- An end condition has no equals sign. -/
  | endForm (condition phase : String)
  /-- The number of an end condition is no positive integer. -/
  | endNumber (condition phase number : String)
  /-- A list stands inside a list pattern. -/
  | nestedPattern (got : Literal)
  /-- A list pattern has no items. -/
  | emptyPattern
  /-- A literal is no pattern. -/
  | notPattern (got : Literal)
  /-- A tuple is not made of names. -/
  | notNames (got : Literal)
  /-- The first argument of a plot has the wrong form for its quantity. -/
  | expressionForm (quantity : Quantity) (got : Literal)
  /-- An evaluation property has a key that is no text. -/
  | optionKey (key : Literal)
  /-- The subject of an evaluation is no selection. -/
  | subjectOption (got : Literal)
  /-- The phases of an evaluation are no names. -/
  | phaseOption (got : Literal)
  /-- An evaluation property is no text. -/
  | textOption (property : String) (got : Literal)
  /-- An evaluation property is neither on nor off. -/
  | switchOption (property : String) (got : Literal)
  /-- There is no such evaluation property. -/
  | unknownOption (property : String)
  /-- The arguments of a directive are no literals. -/
  | arguments (directive : Keyword)
  /-- A directive has the wrong number of arguments. -/
  | argumentCount (directive : Keyword) (arity : Arity)
  /-- An argument of a directive is no dict. -/
  | argumentNotDict (role : Role) (directive : Keyword) (got : Literal)
  /-- The arguments of a figure are of the wrong kinds. -/
  | figureArguments (directive : Keyword)
  /-- A subplot is not specified by three positive numbers. -/
  | subplotForm (directive : Keyword)
  /-- A legend has a label that is no text. -/
  | legendNames (directive : Keyword)
  /-- The labels of a legend are no tuple. -/
  | legendForm (directive : Keyword) (got : Literal)
  /-- The second argument of a count is neither a pattern nor a dict. -/
  | secondArgument (directive : Keyword)
  /-- The arguments of a count do not fit together. -/
  | badArguments (directive : Keyword)
  /-- An export names no file. -/
  | noFilename (directive : Keyword)
  /-- The keyword states the experiment. -/
  | notDirective (keyword : Keyword)

/-- What the first argument of a plot has to be. -/
def Quantity.expected : Quantity → String
  | .v => "an (element, behavior) tuple"
  | .w => "a stimulus element"
  | .p => "a (stimulus, behavior) tuple"
  | .n => "a pattern"

namespace Malformed

/-- The wording of a malformed text. -/
def message : Malformed → String
  | strayText line => s!"text before the first keyword: '{line}'"
  | parameterKey key => s!"@parameters keys must be strings, got {key.toText}"
  | parametersNotDict got => s!"@parameters must be a dict, got {got.toText}"
  | propertyNotText property keyword got =>
    s!"the property '{property}' of {keyword.name} must be a string, got {got.toText}"
  | unknownProperty key keyword => s!"unknown property {key.toText} of {keyword.name}"
  | runPhases got =>
    s!"'phases' of @run must be a phase label or a tuple of them, got {got.toText}"
  | noStimulus phase row => s!"phase '{phase}': line '{row}' has no stimulus"
  | noConditions line => s!"line with label '{line}' has no conditions"
  | emptyStimulus line => s!"line '{line}' has an empty stimulus"
  | manyColons condition => s!"condition '{condition}' has more than one colon"
  | notInteger text => s!"expected an integer, got '{text}'"
  | bareLabel edges => s!"invalid condition '{edges}'"
  | badEdge condition => s!"malformed condition '{condition}'"
  | endForm condition phase =>
    s!"end condition '{condition}' of phase '{phase}' must have the form KEY=N"
  | endNumber condition phase number =>
    s!"end condition '{condition}' of phase '{phase}': '{number}' is not a positive integer"
  | nestedPattern got => s!"nested list in sequence pattern {got.toText}"
  | emptyPattern => "empty sequence pattern"
  | notPattern got => s!"a pattern must be a string, tuple or list, got {got.toText}"
  | notNames got => s!"expected a tuple of names, got {got.toText}"
  | expressionForm quantity got =>
    s!"first argument to @{quantity.name}plot must be {quantity.expected}, got {got.toText}"
  | optionKey key => s!"evaluation property keys must be strings, got {key.toText}"
  | subjectOption got =>
    s!"'subject' must be 'average', 'all' or a subject index, got {got.toText}"
  | phaseOption got => s!"'phase' must be phase label(s), got {got.toText}"
  | textOption property got => s!"'{property}' must be a string, got {got.toText}"
  | switchOption property got => s!"'{property}' must be 'on' or 'off', got {got.toText}"
  | unknownOption property => s!"unknown evaluation property '{property}'"
  | arguments directive => s!"invalid argument list to {directive.name}"
  | argumentCount directive arity =>
    s!"the number of arguments to {directive.name} must be {arity.wording}"
  | argumentNotDict role directive got =>
    s!"{role.wording} to {directive.name} must be a dict, got {got.toText}"
  | figureArguments directive =>
    s!"arguments to {directive.name} must be a title string and/or a dict"
  | subplotForm directive =>
    s!"subplot specification to {directive.name} must be a 3-tuple of positive integers or " ++
      "a three-digit integer without zeros"
  | legendNames directive => s!"legend labels to {directive.name} must be strings"
  | legendForm directive got =>
    s!"legend labels to {directive.name} must be a tuple or a string, got {got.toText}"
  | secondArgument directive => s!"invalid second argument to {directive.name}"
  | badArguments directive => s!"invalid arguments to {directive.name}"
  | noFilename directive => s!"the property 'filename' to {directive.name} is mandatory"
  | notDirective keyword => s!"{keyword.name} is not a post-processing directive"

end Malformed

end Conditioning
