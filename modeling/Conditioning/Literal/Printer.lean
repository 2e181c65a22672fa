import Conditioning.Literal.Basic
import Conditioning.Decimal.Layout

/-!
# The text of a literal

Texts stand in single quotes as they are.  Items and entries are parted by a
comma and a blank, and a tuple of one item ends in a comma.  Decimal numbers are
written without a power of ten, whole ones with `.0`.
-/

namespace Conditioning.Literal

/-- The texts of items with commas between them. -/
def commaSeparated (texts : List String) : String :=
  String.intercalate ", " texts

mutual

/-- The text of a literal. -/
def toText : Literal → String
  | null => "None"
  | bool true => "True"
  | bool false => "False"
  | int value => Decimal.integerText value.toInt
  | float value => Decimal.markedText value
  | str text => "'" ++ text ++ "'"
  | list items => "[" ++ commaSeparated (itemTexts items) ++ "]"
  | tuple items =>
    match itemTexts items with
    | [text] => "(" ++ text ++ ",)"
    | texts => "(" ++ commaSeparated texts ++ ")"
  | dict entries => "\x7b" ++ commaSeparated (entryTexts entries) ++ "\x7d"

/-- The texts of items. -/
def itemTexts : List Literal → List String
  | [] => []
  | item :: items => toText item :: itemTexts items

/-- The texts of entries. -/
def entryTexts : List (Literal × Literal) → List String
  | [] => []
  | (key, value) :: entries => (toText key ++ ": " ++ toText value) :: entryTexts entries

end

theorem itemTexts_eq_map (items : List Literal) : itemTexts items = items.map toText := by
  induction items with
  | nil => simp [itemTexts]
  | cons item items ih => simp [itemTexts, ih]

end Conditioning.Literal
