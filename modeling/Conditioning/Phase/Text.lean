import Conditioning.Phase.Graph
import Conditioning.Text.Blank
import Conditioning.Text.Cut

/-!
# Phases as text

A phase is written as rows, one for each line:

    LABEL STIMULUS | CONDITION | CONDITION ...

The stimulus is a name, in quotes or not, or a tuple of names.  A condition is
a guard and a colon in front of its edges, or the edges alone.  A guard is a
behavior, a count, or both with an equals sign between them.  The edges are one
label, or labels with a probability in parentheses and commas between them; a
probability is a number or a fraction.  The end is written as a line, an
element or a behavior, an equals sign, and a count.

Rows are resolved against a vocabulary.  All labels are checked first, then the
lines in order, then the end.
-/

namespace Conditioning

/-- A phase as it is written. -/
structure PhaseText where
  label : String
  ending : String
  rows : List String
deriving DecidableEq, Repr

namespace PhaseText

/-! ## Small parts -/

/-- A text without any quotes. -/
def withoutQuotes (cs : List Char) : List Char :=
  cs.filter fun c => c != '\'' && c != '"'

/-- A positive integer below 2^32. -/
def positive? (cs : List Char) : Option Nat :=
  match Decimal.readBelow? 4294967296 cs with
  | some n => if 0 < n then some n else none
  | none => none

/-- The number that a text holds as a literal. -/
def number? (cs : List Char) : Option Float :=
  match Literal.parse (String.ofList cs) with
  | .ok value => value.asNumber?
  | .error _ => none

/-- The value of two numbers with a slash between them. -/
def fraction? (cs : List Char) : Option Float :=
  match Text.cut '/' cs with
  | none => none
  | some (upper, lower) =>
    match number? (Text.trim upper), number? (Text.trim lower) with
    | some x, some y => if y == 0.0 then none else some (x / y)
    | _, _ => none

/-- A number or fraction from zero to one. -/
def probability? (cs : List Char) : Option Float :=
  match (number? cs).or (fraction? cs) with
  | some p => if 0.0 ≤ p ∧ p ≤ 1.0 then some p else none
  | none => none

/-- The names of a stimulus. -/
def stimulusNames (cs : List Char) : List String :=
  match Literal.parse (String.ofList cs) with
  | .ok (.tuple items) => items.map fun item => item.asText?.getD item.toText
  | .ok (.str name) => [name]
  | _ =>
    match Text.trim (withoutQuotes cs) with
    | [] => []
    | name => [String.ofList name]

/-! ## Guards -/

/-- The behavior that a guard asks for. -/
def guardBehavior (vocabulary : Vocabulary) (phase : String) (cs : List Char) :
    Except Error BehaviorId :=
  vocabulary.behavior (String.ofList (withoutQuotes cs)) s!"phase '{phase}'"

/-- The guard that a text stands for. -/
def guard (vocabulary : Vocabulary) (phase : String) (cs : List Char) : Except Error Guard :=
  match Text.cut '=' cs with
  | some (behaviorText, countText) =>
    match positive? (Text.trim countText) with
    | none => .error (.malformed (.notInteger (String.ofList (Text.trim countText))))
    | some n => do
      let behavior ← guardBehavior vocabulary phase (Text.trim behaviorText)
      return ⟨some behavior, some n⟩
  | none =>
    match positive? cs with
    | some n => .ok ⟨none, some n⟩
    | none => do
      let behavior ← guardBehavior vocabulary phase cs
      return ⟨some behavior, none⟩

/-! ## Edges -/

/-- The text before the only opening parenthesis, the text up to the last closing one, and the
text after that. -/
def parenthesised? (cs : List Char) : Option (List Char × List Char × List Char) :=
  match Text.cut '(' cs with
  | none => none
  | some (label, rest) =>
    if rest.contains '(' then none
    else match Text.cut ')' rest.reverse with
      | none => none
      | some (after, inside) => some (label, inside.reverse, after.reverse)

/-- One edge with a probability, those before it being given. -/
def weightedEdge (labels : List String) (phase condition edgesText : String)
    (before : List Edge) (item : List Char) : Except Error Edge :=
  match parenthesised? item with
  | none => .error (.malformed (.badEdge condition))
  | some (labelText, probabilityText, after) =>
    if !(Text.trim after).isEmpty then .error (.malformed (.badEdge condition))
    else
      let label := String.ofList (Text.trim labelText)
      match labels.idxOf? label with
      | none => .error (.unknownLine label phase)
      | some target =>
        match probability? (Text.trim probabilityText) with
        | none => .error (.invalid (.notProbability (String.ofList (Text.trim probabilityText))))
        | some p =>
          if before.any fun edge => edge.target == target then
            .error (.invalid (.repeatedTarget label edgesText))
          else .ok ⟨p, target⟩

/-- One edge, those before it being given; a label alone has to be the only one. -/
def edge (labels : List String) (phase condition edgesText : String) (alone : Bool)
    (before : List Edge) (item : List Char) : Except Error Edge :=
  match labels.idxOf? (String.ofList item) with
  | some target =>
    if alone then .ok ⟨1.0, target⟩ else .error (.malformed (.bareLabel edgesText))
  | none => weightedEdge labels phase condition edgesText before item

/-- The edges of a list of items, after those already read. -/
def edges (labels : List String) (phase condition edgesText : String) (alone : Bool)
    (before : List Edge) : List (List Char) → Except Error (List Edge)
  | [] => .ok before
  | item :: items => do
    let next ← edge labels phase condition edgesText alone before item
    edges labels phase condition edgesText alone (before ++ [next]) items

/-! ## Conditions -/

/-- The condition of a guard and edges whose probabilities are not more than one. -/
def bounded (edgesText : String) (guard : Guard) (edges : List Edge) : Except Error Condition :=
  let condition : Condition := ⟨guard, edges⟩
  if 1.0 + roundingSlack < condition.rawMass then
    .error (.invalid (.excessProbability edgesText condition.rawMass))
  else .ok condition

/-- The guard, if there is one, and the edges that a condition is written with. -/
def splitCondition (cs : List Char) : Option (List Char) × List Char :=
  match Text.cut ':' cs with
  | some (guardText, edgesText) => (some (Text.trim guardText), Text.trim edgesText)
  | none => (none, Text.trim cs)

/-- The condition that a text stands for. -/
def condition (vocabulary : Vocabulary) (labels : List String) (phase : String)
    (cs : List Char) : Except Error Condition :=
  if 1 < cs.count ':' then .error (.malformed (.manyColons (String.ofList cs)))
  else do
    let parts := splitCondition cs
    let guard ← match parts.1 with
      | some guardText => guard vocabulary phase guardText
      | none => pure ⟨none, none⟩
    let items := (Text.pieces ',' parts.2).map Text.trim
    let edgesText := String.ofList parts.2
    let edges ← edges labels phase (String.ofList cs) edgesText (items.length == 1) [] items
    bounded edgesText guard edges

/-! ## Lines -/

/-- Whether a line may end in a condition: if it has no guard it has to lead somewhere. -/
def closes (condition : Condition) : Bool :=
  !(condition.guard.isOpen && condition.mass < 1.0 - roundingSlack)

/-- The line of a label and the text after it. -/
def line (vocabulary : Vocabulary) (labels : List String) (phase label : String)
    (cs : List Char) : Except Error Line :=
  match Text.cut '|' cs with
  | none => .error (.malformed (.noConditions label))
  | some (stimulusText, conditionsText) =>
    match stimulusNames (Text.trim stimulusText) with
    | [] => .error (.malformed (.emptyStimulus label))
    | names => do
      let place := s!"line '{label}' of phase '{phase}'"
      let elements ← names.mapM fun name => vocabulary.element name place
      let conditions ← (Text.pieces '|' conditionsText).mapM fun text =>
        condition vocabulary labels phase (Text.trim text)
      match conditions.getLast? with
      | some last =>
        if closes last then return ⟨label, ⟨elements⟩, conditions⟩
        else throw (.invalid (.unassignedProbability label phase))
      | none => return ⟨label, ⟨elements⟩, conditions⟩

/-- The labels of rows with the texts after them, the labels before them being given. -/
def labelled (vocabulary : Vocabulary) (phase : String) (before : List String) :
    List String → Except Error (List (String × List Char))
  | [] => .ok []
  | row :: rows =>
    let word := Text.firstWord (Text.trim row.toList)
    let label := String.ofList word.1
    if word.2.isEmpty then .error (.malformed (.noStimulus phase row))
    else if (vocabulary.element? label).isSome then .error (.invalid (.labelIsElement label))
    else if (vocabulary.behavior? label).isSome then .error (.invalid (.labelIsBehavior label))
    else if before.contains label then .error (.invalid (.repeatedLabel label phase))
    else do
      let rest ← labelled vocabulary phase (before ++ [label]) rows
      return (label, word.2) :: rest

/-! ## The end -/

/-- What a key counts: a line if there is one, else an element, else a behavior. -/
def endKey? (vocabulary : Vocabulary) (labels : List String) (key : String) : Option EndKey :=
  ((labels.idxOf? key).map EndKey.line).or
    (((vocabulary.element? key).map EndKey.element).or
      ((vocabulary.behavior? key).map EndKey.behavior))

/-- The end condition that a text stands for. -/
def endCondition (vocabulary : Vocabulary) (labels : List String) (phase text : String) :
    Except Error EndCondition :=
  match Text.cut '=' text.toList with
  | none => .error (.malformed (.endForm text phase))
  | some (keyText, countText) =>
    let key := String.ofList (withoutQuotes (Text.trim keyText))
    match positive? (Text.trim countText) with
    | none =>
      .error (.malformed (.endNumber text phase (String.ofList (Text.trim countText))))
    | some threshold =>
      match endKey? vocabulary labels key with
      | some key => .ok ⟨key, threshold⟩
      | none => .error (.invalid (.endKey key phase))

/-! ## Phases -/

/-- The phase that a text stands for. -/
def compile (text : PhaseText) (vocabulary : Vocabulary) : Except Error Phase :=
  if text.rows.isEmpty then .error (.invalid (.noLines text.label))
  else do
    let rows ← labelled vocabulary text.label [] text.rows
    let labels := rows.map Prod.fst
    let lines ← rows.mapM fun row => line vocabulary labels text.label row.1 row.2
    let ending ← endCondition vocabulary labels text.label text.ending
    return ⟨text.label, vocabulary, lines, ending⟩

end PhaseText

end Conditioning
