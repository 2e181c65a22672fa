import Conditioning.Query.Expression
import Conditioning.Query.Options

/-!
# Directives

A directive says what to show of an experiment.  Its arguments are a sequence
of literals, the last ones being dicts that may be left out.  Figures, subplots
and legends are kept for whoever draws them; plots and exports hold a query.
-/

namespace Conditioning

/-- The place of a subplot. -/
structure Grid where
  rows : UInt32
  columns : UInt32
  /-- The place, counted row by row. -/
  place : UInt32
deriving DecidableEq, Repr

/-- A plot or an export. -/
structure Plot where
  expression : Expression
  options : Options
  drawing : Dict
  /-- Whether it goes to a file. -/
  isExport : Bool

/-- What to show. -/
inductive Directive where
  | figure (title : Option String) (properties : Dict)
  | subplot (grid : Grid) (properties : Dict)
  | legend (labels : Option (List String)) (properties : Dict)
  | plot (plot : Plot)

namespace Directive

/-- An argument that has to be a dict. -/
def dictArgument (role : Role) (keyword : Keyword) (value : Literal) : Except Error Dict :=
  match value.asDict? with
  | some dict => .ok dict
  | none => .error (.malformed (.argumentNotDict role keyword value))

/-- An argument that has to be a dict if it is there. -/
def dictOrEmpty (role : Role) (keyword : Keyword) (value : Option Literal) : Except Error Dict :=
  match value with
  | some value => dictArgument role keyword value
  | none => .ok Dict.empty

/-! ## Figures -/

/-- The figure of some arguments. -/
def figureOf (keyword : Keyword) (arguments : List Literal) : Except Error Directive :=
  match arguments with
  | [] => .ok (.figure none Dict.empty)
  | [.str title] => .ok (.figure (some title) Dict.empty)
  | [.dict entries] => .ok (.figure none ⟨entries⟩)
  | [.str title, properties] => do
    let properties ← dictArgument .properties keyword properties
    return .figure (some title) properties
  | [_] => .error (.malformed (.figureArguments keyword))
  | [_, _] => .error (.malformed (.figureArguments keyword))
  | _ => .error (.malformed (.argumentCount keyword (.upTo 2)))

/-! ## Subplots -/

/-- A positive integer, of which the lower 32 bits are kept. -/
def positiveWord? (value : Literal) : Option UInt32 :=
  match value.asInteger? with
  | some n => if 0 < n then some (UInt32.ofNat n.toNat) else none
  | none => none

/-- The place that three digits give, none of them zero. -/
def gridOfDigits? (n : Int) : Option Grid :=
  if 111 ≤ n ∧ n ≤ 999 then
    let rows := n.toNat / 100
    let columns := n.toNat / 10 % 10
    let place := n.toNat % 10
    if columns = 0 ∨ place = 0 then none
    else some ⟨UInt32.ofNat rows, UInt32.ofNat columns, UInt32.ofNat place⟩
  else none

/-- The place that a literal gives, as a tuple or as three digits. -/
def gridOf? (value : Literal) : Option Grid :=
  match value with
  | .tuple [rows, columns, place] => do
    let rows ← positiveWord? rows
    let columns ← positiveWord? columns
    let place ← positiveWord? place
    return ⟨rows, columns, place⟩
  | .int n => gridOfDigits? n.toInt
  | _ => none

/-- The subplot of a place and properties. -/
def subplotAt (keyword : Keyword) (place : Literal) (properties : Dict) : Except Error Directive :=
  match gridOf? place with
  | some grid => .ok (.subplot grid properties)
  | none => .error (.malformed (.subplotForm keyword))

/-- The subplot of some arguments. -/
def subplotOf (keyword : Keyword) (arguments : List Literal) : Except Error Directive :=
  match arguments with
  | [place] => subplotAt keyword place Dict.empty
  | [place, properties] => do
    let properties ← dictArgument .secondArgument keyword properties
    subplotAt keyword place properties
  | _ => .error (.malformed (.argumentCount keyword (.either 1 2)))

/-! ## Legends -/

/-- The labels that a literal gives. -/
def legendLabels (keyword : Keyword) (value : Literal) : Except Error (List String) :=
  match value with
  | .str label => .ok [label]
  | .tuple _ =>
    match value.asNames? with
    | some labels => .ok labels
    | none => .error (.malformed (.legendNames keyword))
  | _ => .error (.malformed (.legendForm keyword value))

/-- The legend of some arguments. -/
def legendOf (keyword : Keyword) (arguments : List Literal) : Except Error Directive :=
  match arguments with
  | [] => .ok (.legend none Dict.empty)
  | [.dict entries] => .ok (.legend none ⟨entries⟩)
  | [labels] => do
    let labels ← legendLabels keyword labels
    return .legend (some labels) Dict.empty
  | [labels, properties] => do
    let labels ← legendLabels keyword labels
    let properties ← dictArgument .secondArgument keyword properties
    return .legend (some labels) properties
  | _ => .error (.malformed (.argumentCount keyword (.upTo 2)))

/-! ## Plots -/

/-- How many arguments a plot or an export may have. -/
def greatestCount (quantity : Quantity) (isExport : Bool) : Nat :=
  match quantity, isExport with
  | .n, false => 4
  | .n, true => 3
  | _, false => 3
  | _, true => 2

/-- Whether a literal can be a reference of a count. -/
def isReference : Literal → Bool
  | .str _ => true
  | .tuple _ => true
  | .list _ => true
  | _ => false

/-- A plot or an export that is not a count of something. -/
def simplePlot (quantity : Quantity) (keyword : Keyword) (first : Literal)
    (rest : List Literal) : Except Error (Expression × Dict × Dict) := do
  let expression ← Expression.ofLiteral quantity first
  let evaluation ← dictOrEmpty .evaluation keyword rest[0]?
  let drawing ← dictOrEmpty .drawing keyword rest[1]?
  return (expression, evaluation, drawing)

/-- The dicts that follow what is counted. -/
def countDicts (isExport : Bool) (keyword : Keyword) (rest : List Literal) :
    Except Error (Dict × Dict) :=
  match rest, isExport with
  | [], _ => .ok (Dict.empty, Dict.empty)
  | [evaluation], _ => do
    let evaluation ← dictArgument .evaluation keyword evaluation
    return (evaluation, Dict.empty)
  | [evaluation, drawing], false => do
    let evaluation ← dictArgument .evaluation keyword evaluation
    let drawing ← dictArgument .drawing keyword drawing
    return (evaluation, drawing)
  | _, _ => .error (.malformed (.badArguments keyword))

/-- The reference of a count, if its second argument is one, and the arguments after it. -/
def splitReference (keyword : Keyword) (rest : List Literal) :
    Except Error (Option Literal × List Literal) :=
  match rest with
  | [] => .ok (none, [])
  | second :: others =>
    if isReference second then .ok (some second, others)
    else if second.asDict?.isSome then .ok (none, rest)
    else .error (.malformed (.secondArgument keyword))

/-- A plot or an export of a count. -/
def countPlot (isExport : Bool) (keyword : Keyword) (first : Literal) (rest : List Literal) :
    Except Error (Expression × Dict × Dict) := do
  let split ← splitReference keyword rest
  let expression ← Expression.countOf first split.1
  let dicts ← countDicts isExport keyword split.2
  return (expression, dicts.1, dicts.2)

/-- The plot or export of a quantity and some arguments. -/
def plotOf (quantity : Quantity) (isExport : Bool) (keyword : Keyword)
    (arguments : List Literal) : Except Error Plot :=
  let greatest := greatestCount quantity isExport
  match arguments with
  | [] => .error (.malformed (.argumentCount keyword (.between 1 greatest)))
  | first :: rest => do
    if greatest < arguments.length then
      throw (.malformed (.argumentCount keyword (.between 1 greatest)))
    let parts ← match quantity with
      | .n => countPlot isExport keyword first rest
      | _ => simplePlot quantity keyword first rest
    let options ← Options.ofDict parts.2.1
    if isExport && options.filename.isNone then throw (.malformed (.noFilename keyword))
    return ⟨parts.1, options, parts.2.2, isExport⟩

/-! ## All directives -/

/-- The directive of a keyword and its arguments. -/
def ofArguments (keyword : Keyword) (arguments : List Literal) : Except Error Directive :=
  match keyword with
  | .figure => figureOf keyword arguments
  | .subplot => subplotOf keyword arguments
  | .legend => legendOf keyword arguments
  | .plot quantity => (plotOf quantity false keyword arguments).map .plot
  | .save quantity => (plotOf quantity true keyword arguments).map .plot
  | _ => .error (.malformed (.notDirective keyword))

/-- The directive of a keyword and the text of its arguments. -/
def parse (keyword : Keyword) (text : String) : Except Error Directive :=
  match Literal.parseSequence text with
  | .ok arguments => ofArguments keyword arguments
  | .error _ => .error (.malformed (.arguments keyword))

end Directive

end Conditioning
