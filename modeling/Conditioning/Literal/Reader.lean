import Conditioning.Decimal.Reading
import Conditioning.Literal.Dict

/-!
# Reading literals

The reader takes one value off the front of a text and hands back what is left,
which is always shorter.  Blanks between values are space, tab and the two line
ends.  A value in parentheses without a comma is that value; a comma, also
after the last item, makes a tuple.

A refusal says why and what text was left when it was noticed.  The place of
the refusal in the whole text is the number of bytes before that rest.
-/

namespace Conditioning.Literal

/-- Why a text is refused. -/
inductive Reason where
  | trailingText
  /-- The value is of another kind than a dict. -/
  | notDict (kind : String)
  /-- The text ends where a value is due. -/
  | endOfInput
  | noValue
  /-- Neither a comma nor the closing bracket follows an item. -/
  | unclosed (bracket : Char)
  /-- A list or a dict stands where a key is due. -/
  | unhashable (kind : String)
  | noColon
  /-- The quote is not closed on its line. -/
  | unterminated
  /-- A bare word is not one of the constants. -/
  | bareWord (word : String)
  /-- A sign or a point has no digits. -/
  | noDigits
  /-- The characters of a number do not make up a number. -/
  | badNumber (text : String)
  /-- The integer does not fit 64 bits. -/
  | outOfRange (text : String)
deriving DecidableEq, Repr

/-- The wording of a refusal. -/
def Reason.message : Reason → String
  | trailingText => "unexpected trailing text"
  | notDict kind => s!"expected a dict, got a {kind}"
  | endOfInput => "unexpected end of input"
  | noValue => "expected a number, string, list, tuple or dict"
  | unclosed bracket => s!"expected ',' or '{bracket}'"
  | unhashable kind => s!"unhashable dict key of type {kind}"
  | noColon => "expected ':' after dict key"
  | unterminated => "unterminated string"
  | bareWord word => s!"'{word}' is not a literal"
  | noDigits => "malformed number"
  | badNumber text => s!"malformed number '{text}'"
  | outOfRange text => s!"integer '{text}' out of range"

/-- A refusal, with the text that was left when it was noticed. -/
structure Fault where
  reason : Reason
  /-- The text from the refused place on. -/
  rest : List Char

/-- What was read off the front of a text, and the shorter rest. -/
structure Taken (α : Type) (text : List Char) where
  value : α
  rest : List Char
  shorter : rest.length < text.length

/-- What was read off the end of a longer text, as another value. -/
def Taken.lift {α β : Type} {inner text : List Char} (r : Taken α inner)
    (h : inner.length ≤ text.length) (f : α → β) : Taken β text :=
  ⟨f r.value, r.rest, Nat.lt_of_lt_of_le r.shorter h⟩

/-! ## Blanks and marks -/

/-- The blanks that may stand between values. -/
def isSpace (c : Char) : Bool :=
  c == ' ' || c == '\t' || c == '\n' || c == '\r'

/-- Drop the blanks in front. -/
def skipSpace (text : List Char) : List Char :=
  text.dropWhile isSpace

theorem length_skipSpace_le (text : List Char) : (skipSpace text).length ≤ text.length :=
  (List.dropWhile_sublist isSpace).length_le

/-- The rest after a mark, blanks in front of it skipped. -/
def eat? (mark : Char) (text : List Char) : Option (List Char) :=
  match skipSpace text with
  | [] => none
  | c :: rest => if c = mark then some rest else none

theorem length_lt_of_eat? {mark : Char} {text rest : List Char}
    (h : eat? mark text = some rest) : rest.length < text.length := by
  have hle := length_skipSpace_le text
  simp only [eat?] at h
  split at h
  · simp at h
  · next c tail heq =>
    split at h
    · simp only [Option.some.injEq] at h
      subst h
      simp only [heq, List.length_cons] at hle
      omega
    · simp at h

/-! ## Texts in quotes -/

/-- What a character after a backslash stands for. -/
def unescape (c : Char) : List Char :=
  if c = 'n' then ['\n']
  else if c = 't' then ['\t']
  else if c = 'r' then ['\r']
  else if c = '\\' ∨ c = '\'' ∨ c = '"' then [c]
  else ['\\', c]

/-- The characters up to the closing quote, and the rest after it. -/
def quoted (quote : Char) : List Char → Option (List Char × List Char)
  | [] => none
  | '\\' :: [] => none
  | '\\' :: c :: cs => (quoted quote cs).map fun r => (unescape c ++ r.1, r.2)
  | c :: cs =>
    if c = '\n' then none
    else if c = quote then some ([], cs)
    else (quoted quote cs).map fun r => (c :: r.1, r.2)

theorem length_lt_of_quoted {quote : Char} {cs : List Char} {r : List Char × List Char}
    (h : quoted quote cs = some r) : r.2.length < cs.length := by
  fun_induction quoted quote cs generalizing r with
  | case1 => simp at h
  | case2 => simp at h
  | case3 c cs ih =>
    obtain ⟨r', hr', rfl⟩ := Option.map_eq_some_iff.1 h
    have := ih hr'
    simp only [List.length_cons]
    omega
  | case4 => simp at h
  | case5 =>
    simp only [Option.some.injEq] at h
    subst h
    simp
  | case6 c cs _ _ _ _ ih =>
    obtain ⟨r', hr', rfl⟩ := Option.map_eq_some_iff.1 h
    have := ih hr'
    simp only [List.length_cons]
    omega

/-- A text, its opening quote already taken. -/
def readQuoted (quote : Char) (cs : List Char) : Except Fault (Taken Literal (quote :: cs)) :=
  match h : quoted quote cs with
  | some r => .ok ⟨str (String.ofList r.1), r.2, by
      have := length_lt_of_quoted h
      simp only [List.length_cons]
      omega⟩
  | none => .error ⟨.unterminated, cs⟩

/-! ## Numbers -/

/-- The characters of a number, as they are met one by one. -/
structure Numeral where
  text : List Char
  /-- Whether a point or a power of ten was met. -/
  isDecimal : Bool
  hasDigit : Bool
  rest : List Char

/-- Put a character in front of those already met. -/
def Numeral.push (c : Char) (n : Numeral) : Numeral :=
  ⟨c :: n.text, n.isDecimal, n.hasDigit, n.rest⟩

/-- Collect the characters of a number.  One point is taken, and none after a power of ten; the
letter of a power of ten is taken after a digit, with a sign that follows it. -/
def numeral (isDecimal hasDigit : Bool) : List Char → Numeral
  | [] => ⟨[], isDecimal, hasDigit, []⟩
  | c :: cs =>
    if Decimal.isDigit c then (numeral isDecimal true cs).push c
    else if c = '.' ∧ isDecimal = false then (numeral true hasDigit cs).push c
    else if (c = 'e' ∨ c = 'E') ∧ hasDigit then
      match cs with
      | '+' :: ds => ((numeral true hasDigit ds).push '+').push c
      | '-' :: ds => ((numeral true hasDigit ds).push '-').push c
      | ds => (numeral true hasDigit ds).push c
    else ⟨[], isDecimal, hasDigit, c :: cs⟩

@[simp] theorem Numeral.rest_push (c : Char) (n : Numeral) : (n.push c).rest = n.rest := rfl

@[simp] theorem Numeral.text_push (c : Char) (n : Numeral) : (n.push c).text = c :: n.text := rfl

theorem text_append_rest_numeral (isDecimal hasDigit : Bool) (cs : List Char) :
    (numeral isDecimal hasDigit cs).text ++ (numeral isDecimal hasDigit cs).rest = cs := by
  fun_induction numeral isDecimal hasDigit cs with
  | case1 => rfl
  | case2 _ _ c cs _ ih => simp [ih]
  | case3 _ _ c cs _ _ ih => simp [ih]
  | case4 _ _ c _ _ _ ds ih => simp [ih]
  | case5 _ _ c _ _ _ ds ih => simp [ih]
  | case6 _ _ c cs _ _ _ _ _ ih => simp [ih]
  | case7 => rfl

theorem length_rest_numeral_le (isDecimal hasDigit : Bool) (cs : List Char) :
    (numeral isDecimal hasDigit cs).rest.length ≤ cs.length := by
  have := congrArg List.length (text_append_rest_numeral isDecimal hasDigit cs)
  simp only [List.length_append] at this
  omega

/-- Whether a number can start with a character. -/
def startsNumber (c : Char) : Bool :=
  c == '+' || c == '-' || c == '.' || Decimal.isDigit c

/-- The greatest integer and the opposite of the least one lie next to this bound. -/
def integerBound : Int := 9223372036854775808

/-- The literal that the characters of a number stand for. -/
def ofNumeral (text : List Char) (isDecimal : Bool) : Except Reason Literal :=
  if isDecimal then
    match Decimal.readDouble? text with
    | some x => .ok (float x)
    | none => .error (.badNumber (String.ofList text))
  else
    match Decimal.readInteger? text with
    | some n =>
      if -integerBound ≤ n ∧ n < integerBound then .ok (int (Int64.ofInt n))
      else .error (.outOfRange (String.ofList text))
    | none => .error (.outOfRange (String.ofList text))

/-- A number whose first character is given; a sign is no part of what digits decide. -/
def readNumber (c : Char) (cs : List Char) : Except Fault (Taken Literal (c :: cs)) :=
  let n := numeral (c == '.') (Decimal.isDigit c) cs
  if n.hasDigit then
    match ofNumeral (c :: n.text) n.isDecimal with
    | .ok value => .ok ⟨value, n.rest, by
        have := length_rest_numeral_le (c == '.') (Decimal.isDigit c) cs
        exact Nat.lt_succ_of_le this⟩
    | .error reason => .error ⟨reason, n.rest⟩
  else .error ⟨.noDigits, c :: cs⟩

/-! ## Constants -/

/-- The characters of a bare word. -/
def isWordChar (c : Char) : Bool :=
  Decimal.isDigit c || ('a' ≤ c && c ≤ 'z') || ('A' ≤ c && c ≤ 'Z') || c == '_'

/-- The constant of a bare word. -/
def constant? (word : List Char) : Option Literal :=
  if word = ['T', 'r', 'u', 'e'] then some (bool true)
  else if word = ['F', 'a', 'l', 's', 'e'] then some (bool false)
  else if word = ['N', 'o', 'n', 'e'] then some null
  else none

/-- A constant whose first character is given. -/
def readConstant (c : Char) (cs : List Char) : Except Fault (Taken Literal (c :: cs)) :=
  let word := c :: cs.takeWhile isWordChar
  match constant? word with
  | some value => .ok ⟨value, cs.dropWhile isWordChar, by
      have := (List.dropWhile_sublist isWordChar (l := cs)).length_le
      exact Nat.lt_succ_of_le this⟩
  | none => .error ⟨.bareWord (String.ofList word), c :: cs⟩

/-! ## Values -/

/-- Items without a comma at the end are one value in parentheses if there is one of them. -/
def ofParenthesised (items : List Literal) (trailingComma : Bool) : Literal :=
  match items, trailingComma with
  | [item], false => item
  | items, _ => tuple items

mutual

/-- One value off the front of a text. -/
def readValue (text : List Char) : Except Fault (Taken Literal text) :=
  match h : skipSpace text with
  | [] => .error ⟨.endOfInput, []⟩
  | c :: cs =>
    have hcons : (c :: cs).length ≤ text.length := h ▸ length_skipSpace_le text
    have hlt : cs.length < text.length := hcons
    if c = '\'' ∨ c = '"' then (readQuoted c cs).map fun r => r.lift hcons id
    else if c = '[' then
      (readItems ']' [] cs).map fun r => r.lift (Nat.le_of_lt hlt) fun items => list items.1
    else if c = '(' then
      (readItems ')' [] cs).map fun r =>
        r.lift (Nat.le_of_lt hlt) fun items => ofParenthesised items.1 items.2
    else if c = '\x7b' then
      (readEntries Dict.empty cs).map fun r => r.lift (Nat.le_of_lt hlt) fun d => dict d.entries
    else if startsNumber c then (readNumber c cs).map fun r => r.lift hcons id
    else if 'A' ≤ c ∧ c ≤ 'Z' then (readConstant c cs).map fun r => r.lift hcons id
    else .error ⟨.noValue, c :: cs⟩
termination_by (text.length, 0)

/-- The items up to a closing bracket, after those already read, and whether a comma follows the
last one. -/
def readItems (bracket : Char) (before : List Literal) (text : List Char) :
    Except Fault (Taken (List Literal × Bool) text) :=
  match h : eat? bracket text with
  | some rest => .ok ⟨(before, !before.isEmpty), rest, length_lt_of_eat? h⟩
  | none =>
    match readValue text with
    | .error fault => .error fault
    | .ok item =>
      have hitem := item.shorter
      match hcomma : eat? ',' item.rest with
      | some rest =>
        have hrest := length_lt_of_eat? hcomma
        have hle := Nat.le_of_lt (Nat.lt_trans hrest hitem)
        (readItems bracket (before ++ [item.value]) rest).map fun r => r.lift hle id
      | none =>
        match hclose : eat? bracket item.rest with
        | some rest => .ok ⟨(before ++ [item.value], false), rest, by
            have := length_lt_of_eat? hclose
            omega⟩
        | none => .error ⟨.unclosed bracket, skipSpace item.rest⟩
termination_by (text.length, 1)

/-- The entries up to the closing brace, put into those already read. -/
def readEntries (before : Dict) (text : List Char) : Except Fault (Taken Dict text) :=
  match h : eat? '\x7d' text with
  | some rest => .ok ⟨before, rest, length_lt_of_eat? h⟩
  | none =>
    match readValue text with
    | .error fault => .error fault
    | .ok key =>
      have hkey := key.shorter
      if key.value.isKey then
        match hcolon : eat? ':' key.rest with
        | none => .error ⟨.noColon, skipSpace key.rest⟩
        | some valueText =>
          have hvalueText := length_lt_of_eat? hcolon
          match readValue valueText with
          | .error fault => .error fault
          | .ok value =>
            have hvalue := value.shorter
            match hcomma : eat? ',' value.rest with
            | some rest =>
              have hrest := length_lt_of_eat? hcomma
              have hle : rest.length ≤ text.length := by omega
              (readEntries (before.put key.value value.value) rest).map fun r => r.lift hle id
            | none =>
              match hclose : eat? '\x7d' value.rest with
              | some rest => .ok ⟨before.put key.value value.value, rest, by
                  have := length_lt_of_eat? hclose
                  omega⟩
              | none => .error ⟨.unclosed '\x7d', skipSpace value.rest⟩
      else .error ⟨.unhashable key.value.kindName, key.rest⟩
termination_by (text.length, 1)

end

/-- The values of a whole text, one after the other. -/
def readSequence (text : List Char) : Except Fault (List Literal) :=
  if (skipSpace text).isEmpty then .ok []
  else
    match readValue text with
    | .error fault => .error fault
    | .ok item =>
      have := item.shorter
      match readSequence item.rest with
      | .ok items => .ok (item.value :: items)
      | .error fault => .error fault
termination_by text.length

/-! ## Whole texts -/

/-- A refused text. -/
structure Misread where
  input : String
  /-- The number of bytes before the refused place. -/
  offset : Nat
  reason : Reason
deriving DecidableEq, Repr

/-- The number of bytes of a text. -/
def byteLength : List Char → Nat
  | [] => 0
  | c :: cs => c.utf8Size + byteLength cs

/-- A refusal of a whole text. -/
def Fault.within (fault : Fault) (input : String) : Misread :=
  ⟨input, byteLength input.toList - byteLength fault.rest, fault.reason⟩

/-- The one literal that a text holds. -/
def parse (input : String) : Except Misread Literal :=
  match readValue input.toList with
  | .error fault => .error (fault.within input)
  | .ok r =>
    if (skipSpace r.rest).isEmpty then .ok r.value
    else .error (Fault.within ⟨.trailingText, skipSpace r.rest⟩ input)

/-- The one dict that a text holds. -/
def parseDict (input : String) : Except Misread Dict :=
  match parse input with
  | .error misread => .error misread
  | .ok (dict entries) => .ok ⟨entries⟩
  | .ok other => .error ⟨input, 0, .notDict other.kindName⟩

/-- All the literals that a text holds. -/
def parseSequence (input : String) : Except Misread (List Literal) :=
  match readSequence input.toList with
  | .error fault => .error (fault.within input)
  | .ok items => .ok items

end Conditioning.Literal
