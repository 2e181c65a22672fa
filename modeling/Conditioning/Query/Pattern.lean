import Conditioning.Error.Basic

/-!
# Patterns

A pattern names what to look for in a history: an element or a behavior, the
elements of a compound, or a sequence of those in direct succession.  As a
literal it is a text, a tuple, or a list without lists in it.
-/

namespace Conditioning

/-- What to look for in a history. -/
inductive Pattern where
  | name (name : String)
  | compound (names : List String)
  | sequence (items : List Pattern)
deriving Inhabited

namespace Pattern

/-- The names of a tuple, of which there has to be one. -/
def namesOf (value : Literal) : Except Error (List String) :=
  match value.asNames? with
  | some (first :: rest) => .ok (first :: rest)
  | _ => .error (.malformed (.notNames value))

/-- The pattern of a literal that is no list. -/
def ofSimple (value : Literal) : Except Error Pattern :=
  match value with
  | .str text => .ok (.name text)
  | .tuple _ => (namesOf value).map .compound
  | _ => .error (.malformed (.notPattern value))

/-- The pattern of an item of a list. -/
def ofItem (whole item : Literal) : Except Error Pattern :=
  match item with
  | .list _ => .error (.malformed (.nestedPattern whole))
  | _ => ofSimple item

/-- The pattern of a literal. -/
def ofLiteral (value : Literal) : Except Error Pattern :=
  match value with
  | .list items => do
    let patterns ← items.mapM (ofItem value)
    if patterns.isEmpty then throw (.malformed .emptyPattern)
    return .sequence patterns
  | _ => ofSimple value

mutual

/-- The text of a pattern. -/
def toText : Pattern → String
  | name text => text
  | compound names => "(" ++ String.intercalate "," names ++ ")"
  | sequence items => "[" ++ String.intercalate "," (texts items) ++ "]"

/-- The texts of patterns. -/
def texts : List Pattern → List String
  | [] => []
  | item :: items => toText item :: texts items

end

end Pattern

end Conditioning
