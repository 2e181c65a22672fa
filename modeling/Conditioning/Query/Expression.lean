import Conditioning.Query.Pattern

/-!
# Expressions

An expression is what a curve shows: the weight of an element and a behavior,
the salience of an element, the probability of a behavior given a stimulus, or
the number of occurrences of a pattern, alone or for each occurrence of another
one.
-/

namespace Conditioning

/-- What a query measures. -/
inductive Expression where
  | v (element behavior : String)
  | w (element : String)
  | p (stimulus : List String) (behavior : String)
  | n (pattern : Pattern) (reference : Option Pattern)

namespace Expression

/-- The quantity that is measured. -/
def quantity : Expression → Quantity
  | v _ _ => .v
  | w _ => .w
  | p _ _ => .p
  | n _ _ => .n

/-- The error of a literal that is no expression of a quantity. -/
def formError (quantity : Quantity) (value : Literal) : Error :=
  .malformed (.expressionForm quantity value)

/-- The weight that a literal names. -/
def weightOf (value : Literal) : Except Error Expression :=
  match value.isTuple, value.asNames? with
  | true, some [element, behavior] => .ok (.v element behavior)
  | _, _ => .error (formError .v value)

/-- The salience that a literal names. -/
def salienceOf (value : Literal) : Except Error Expression :=
  match value.asNames? with
  | some [element] => .ok (.w element)
  | _ => .error (formError .w value)

/-- The elements that the first part of a probability names. -/
def shownElements (whole part : Literal) : Except Error (List String) :=
  match part with
  | .str name => .ok [name]
  | .tuple _ => Pattern.namesOf part
  | _ => .error (formError .p whole)

/-- The probability that a literal names. -/
def probabilityOf (value : Literal) : Except Error Expression :=
  match value with
  | .tuple [shown, done] => do
    let stimulus ← shownElements value shown
    match done.asText? with
    | some behavior => return .p stimulus behavior
    | none => throw (formError .p value)
  | _ => .error (formError .p value)

/-- The count of a pattern, for each occurrence of a reference if there is one. -/
def countOf (pattern : Literal) (reference : Option Literal) : Except Error Expression := do
  let pattern ← Pattern.ofLiteral pattern
  match reference with
  | none => return .n pattern none
  | some reference =>
    let reference ← Pattern.ofLiteral reference
    return .n pattern (some reference)

/-- The expression of a quantity that a literal names. -/
def ofLiteral (quantity : Quantity) (value : Literal) : Except Error Expression :=
  match quantity with
  | .v => weightOf value
  | .w => salienceOf value
  | .p => probabilityOf value
  | .n => countOf value none

/-- The text of a stimulus: one name, or several in parentheses. -/
def stimulusText : List String → String
  | [name] => name
  | names => "(" ++ String.intercalate "," names ++ ")"

/-- The text of an expression. -/
def toText : Expression → String
  | v element behavior => "v(" ++ element ++ "->" ++ behavior ++ ")"
  | w element => "w(" ++ element ++ ")"
  | p stimulus behavior => "p(" ++ stimulusText stimulus ++ "->" ++ behavior ++ ")"
  | n pattern none => "n(" ++ pattern.toText ++ ")"
  | n pattern (some reference) => "n(" ++ pattern.toText ++ ")/n(" ++ reference.toText ++ ")"

end Expression

end Conditioning
