/-!
# Literals

A script gives its settings as literals: numbers, texts, the three constants,
lists, tuples and dicts.  An integer is a word of 64 bits with a sign and a
decimal number is a double; the two are never equal to each other.  A dict is
a list of entries in the order in which their keys first appeared.
-/

namespace Conditioning

/-- A value of the settings language. -/
inductive Literal where
  /-- The constant `None`. -/
  | null
  /-- One of the constants `True` and `False`. -/
  | bool (value : Bool)
  | int (value : Int64)
  | float (value : Float)
  | str (text : String)
  | list (items : List Literal)
  | tuple (items : List Literal)
  | dict (entries : List (Literal × Literal))
deriving Inhabited

/-- A dict on its own: its entries in order. -/
structure Dict where
  entries : List (Literal × Literal)
deriving Inhabited

namespace Literal

/-! ## Reading a literal as something else -/

/-- The text of a text. -/
def asText? : Literal → Option String
  | str text => some text
  | _ => none

/-- The number of an integer or a decimal number. -/
def asNumber? : Literal → Option Float
  | int value => some value.toFloat
  | float value => some value
  | _ => none

/-- The truth value of a constant. -/
def asBool? : Literal → Option Bool
  | bool value => some value
  | _ => none

/-- The integer of an integer. -/
def asInteger? : Literal → Option Int
  | int value => some value.toInt
  | _ => none

/-- The items of a list or a tuple. -/
def asItems? : Literal → Option (List Literal)
  | list items => some items
  | tuple items => some items
  | _ => none

/-- The dict of a dict. -/
def asDict? : Literal → Option Dict
  | dict entries => some ⟨entries⟩
  | _ => none

/-- Whether a literal is a tuple. -/
def isTuple : Literal → Bool
  | tuple _ => true
  | _ => false

/-- The names that a text, or a list or tuple of nothing but texts, gives. -/
def asNames? : Literal → Option (List String)
  | str text => some [text]
  | list items => items.mapM asText?
  | tuple items => items.mapM asText?
  | _ => none

/-- The name of the kind of a literal. -/
def kindName : Literal → String
  | null => "NoneType"
  | bool _ => "bool"
  | int _ => "int"
  | float _ => "float"
  | str _ => "str"
  | list _ => "list"
  | tuple _ => "tuple"
  | dict _ => "dict"

/-- Lists and dicts are not taken as keys. -/
def isKey : Literal → Bool
  | list _ => false
  | dict _ => false
  | _ => true

/-! ## Sameness -/

mutual

/-- Whether two literals are the same value; decimal numbers compare as numbers do. -/
def same : Literal → Literal → Bool
  | null, null => true
  | bool x, bool y => x == y
  | int x, int y => x == y
  | float x, float y => x == y
  | str x, str y => x == y
  | list xs, list ys => sameItems xs ys
  | tuple xs, tuple ys => sameItems xs ys
  | dict xs, dict ys => sameEntries xs ys
  | _, _ => false

/-- Whether two lists of literals are the same, item by item. -/
def sameItems : List Literal → List Literal → Bool
  | [], [] => true
  | x :: xs, y :: ys => same x y && sameItems xs ys
  | _, _ => false

/-- Whether two lists of entries are the same, entry by entry. -/
def sameEntries : List (Literal × Literal) → List (Literal × Literal) → Bool
  | [], [] => true
  | (k, x) :: xs, (l, y) :: ys => same k l && same x y && sameEntries xs ys
  | _, _ => false

end

end Literal

end Conditioning
