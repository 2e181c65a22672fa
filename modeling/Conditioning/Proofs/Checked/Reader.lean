import Conditioning.Proofs.Literal.Bytes

/-!
# The reader, checked

The reader goes over the bytes of a text and cuts the text at places.  Here it is
written that way: it counts the bytes in front of where it stands, looks at one byte
at a time, and cuts the text where a text in quotes, a word or a number begins and
ends.  It has no result if it would cut a text inside a character, if a value would
start inside one or would not end behind its start, or if it would go deeper than it
is allowed.

It always has one, and the same as the reader (`Proofs.Literal.InPlace`); a depth of
twice the bytes of the text and one more is enough.
-/

namespace Conditioning.Literal

/-- What was read and the place behind it, or why the text is refused and where. -/
abbrev Outcome (α : Type) := Except (Reason × Nat) (α × Nat)

/-- An outcome with another value in it. -/
def Outcome.mapValue {α β : Type} (f : α → β) (outcome : Outcome α) : Outcome β :=
  outcome.map fun r => (f r.1, r.2)

section

variable (input : String)

/-! ## Steps over bytes -/

/-- The place behind the blanks from a place on. -/
def skipFrom (place : Nat) : Nat :=
  place + (((bytesOf input.toList).drop place).takeWhile isSpace).length

/-- The byte at a place. -/
def byteAt? (place : Nat) : Option Char := (bytesOf input.toList)[place]?

/-- The place behind a mark, blanks in front of it skipped. -/
def eatAt? (mark : Char) (place : Nat) : Option Nat :=
  if byteAt? input (skipFrom input place) = some mark then some (skipFrom input place + 1)
  else none

/-- The characters up to the closing quote, and the place behind it. -/
def quotedAt (quote : Char) (place : Nat) : List Char → Option (List Char × Nat)
  | [] => none
  | '\\' :: [] => none
  | '\\' :: c :: cs =>
    (quotedAt quote (place + 1 + c.utf8Size) cs).map fun r => (unescape c ++ r.1, r.2)
  | c :: cs =>
    if c = '\n' then none
    else if c = quote then some ([], place + 1)
    else (quotedAt quote (place + c.utf8Size) cs).map fun r => (c :: r.1, r.2)

/-- A text whose opening quote is at a place. -/
def readQuoted? (quote : Char) (place : Nat) : Option (Outcome Literal) := do
  let rest ← slice? input (place + 1) input.utf8ByteSize
  match quotedAt quote (place + 1) rest with
  | some r => return .ok (str (String.ofList r.1), r.2)
  | none => return .error (.unterminated, place + 1)

/-- A number that starts at a place. -/
def readNumber? (place : Nat) : Option (Outcome Literal) :=
  match (bytesOf input.toList).drop place with
  | [] => none
  | c :: cs => do
    let n := numeral (c == '.') (Decimal.isDigit c) cs
    let stop := place + (c :: n.text).length
    let text ← slice? input place stop
    if n.hasDigit then
      match ofNumeral text n.isDecimal with
      | .ok value => return .ok (value, stop)
      | .error reason => return .error (reason, stop)
    else return .error (.noDigits, place)

/-- A constant that starts at a place. -/
def readConstant? (place : Nat) : Option (Outcome Literal) := do
  let stop := place + (((bytesOf input.toList).drop place).takeWhile isWordChar).length
  let word ← slice? input place stop
  match constant? word with
  | some value => return .ok (value, stop)
  | none => return .error (.bareWord (String.ofList word), place)

/-! ## Values -/

/-- Whether a place is one at which the text can be cut, its end included. -/
def IsPlace (place : Nat) : Prop :=
  place ≤ input.utf8ByteSize ∧ (String.Pos.Raw.mk place).IsValid input

instance (place : Nat) : Decidable (IsPlace input place) :=
  inferInstanceAs (Decidable (_ ∧ _))

/-- Keep what came of reading a value from a place on, if there and where reading ended the text
can be cut, and if a value that was read ends behind that place. -/
def keepAdvanced? (start : Nat) (outcome : Outcome Literal) : Option (Outcome Literal) :=
  match outcome with
  | .ok (_, stop) =>
    if IsPlace input start ∧ start < stop ∧ IsPlace input stop then some outcome else none
  | .error (_, stop) => if IsPlace input start ∧ IsPlace input stop then some outcome else none

mutual

/-- One value from a place on, read no deeper than allowed. -/
def readValue? : Nat → Nat → Option (Outcome Literal)
  | 0, _ => none
  | depth + 1, start =>
    let place := skipFrom input start
    Option.bind (match byteAt? input place with
      | none => some (.error (.endOfInput, place))
      | some c =>
        if c = '\'' ∨ c = '"' then readQuoted? input c place
        else if c = '[' then
          (readItems? depth ']' [] (place + 1)).map (Outcome.mapValue fun items => list items.1)
        else if c = '(' then
          (readItems? depth ')' [] (place + 1)).map
            (Outcome.mapValue fun items => ofParenthesised items.1 items.2)
        else if c = '\x7b' then
          (readEntries? depth Dict.empty (place + 1)).map
            (Outcome.mapValue fun d => dict d.entries)
        else if startsNumber c then readNumber? input place
        else if 'A' ≤ c ∧ c ≤ 'Z' then readConstant? input place
        else some (.error (.noValue, place)))
      (keepAdvanced? input start)

/-- The items up to a closing bracket, after those already read. -/
def readItems? : Nat → Char → List Literal → Nat → Option (Outcome (List Literal × Bool))
  | 0, _, _, _ => none
  | depth + 1, bracket, before, place =>
    match eatAt? input bracket place with
    | some rest => some (.ok ((before, !before.isEmpty), rest))
    | none =>
      match readValue? depth (skipFrom input place) with
      | none => none
      | some (.error refused) => some (.error refused)
      | some (.ok (item, after)) =>
        match eatAt? input ',' after with
        | some rest => readItems? depth bracket (before ++ [item]) rest
        | none =>
          match eatAt? input bracket (skipFrom input after) with
          | some rest => some (.ok ((before ++ [item], false), rest))
          | none => some (.error (.unclosed bracket, skipFrom input after))

/-- The entries up to the closing brace, put into those already read. -/
def readEntries? : Nat → Dict → Nat → Option (Outcome Dict)
  | 0, _, _ => none
  | depth + 1, before, place =>
    match eatAt? input '\x7d' place with
    | some rest => some (.ok (before, rest))
    | none =>
      match readValue? depth (skipFrom input place) with
      | none => none
      | some (.error refused) => some (.error refused)
      | some (.ok (key, afterKey)) =>
        if key.isKey then
          match eatAt? input ':' afterKey with
          | none => some (.error (.noColon, skipFrom input afterKey))
          | some valuePlace =>
            match readValue? depth valuePlace with
            | none => none
            | some (.error refused) => some (.error refused)
            | some (.ok (value, after)) =>
              match eatAt? input ',' after with
              | some rest => readEntries? depth (before.put key value) rest
              | none =>
                match eatAt? input '\x7d' (skipFrom input after) with
                | some rest => some (.ok (before.put key value, rest))
                | none => some (.error (.unclosed '\x7d', skipFrom input after))
        else some (.error (.unhashable key.kindName, afterKey))

end

/-! ## Whole texts -/

/-- A depth that is enough for every value of a text. -/
def fullDepth : Nat := 2 * input.utf8ByteSize + 1

/-- The values from a place on, blanks in front being skipped, no more of them than allowed. -/
def readSequence? : Nat → Nat → Option (Except (Reason × Nat) (List Literal))
  | 0, _ => none
  | count + 1, place =>
    if input.utf8ByteSize ≤ place then some (.ok [])
    else
      match readValue? input (fullDepth input) place with
      | none => none
      | some (.error refused) => some (.error refused)
      | some (.ok (item, after)) =>
        (readSequence? count (skipFrom input after)).map fun result => result.map (item :: ·)

/-- The one literal that a text holds. -/
def parse? : Option (Except Misread Literal) := do
  match ← readValue? input (fullDepth input) (skipFrom input 0) with
  | .error refused => return .error ⟨input, refused.2, refused.1⟩
  | .ok (value, after) =>
    if input.utf8ByteSize ≤ skipFrom input after then return .ok value
    else return .error ⟨input, skipFrom input after, .trailingText⟩

/-- The one dict that a text holds. -/
def parseDict? : Option (Except Misread Dict) := do
  match ← parse? input with
  | .error misread => return .error misread
  | .ok (dict entries) => return .ok ⟨entries⟩
  | .ok other => return .error ⟨input, 0, .notDict other.kindName⟩

/-- All the literals that a text holds. -/
def parseSequence? : Option (Except Misread (List Literal)) := do
  match ← readSequence? input (input.utf8ByteSize + 1) (skipFrom input 0) with
  | .error refused => return .error ⟨input, refused.2, refused.1⟩
  | .ok items => return .ok items

end

end Conditioning.Literal
