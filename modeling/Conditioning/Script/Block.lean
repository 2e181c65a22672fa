import Conditioning.Error.Basic
import Conditioning.Text.Blank
import Conditioning.Text.Cut

/-!
# Blocks of a script

A script is cleaned line by line: tabs become spaces, a comment is cut off,
and blanks at both ends are dropped; lines of which nothing is left are
dropped as well.  A comment starts at the first hash outside quotes.  Quotes do
not reach over the end of a line, and a backslash inside them takes the next
character along.

A line that starts with `@` starts a block.  Its first word is the keyword and
what follows on the line is the header; the lines up to the next block are the
body.
-/

namespace Conditioning

/-! ## Clean lines -/

/-- The part of a line before a comment.  The scan is inside quotes of a kind or outside, and
inside them possibly after a backslash. -/
def beforeComment (quote : Option Char) (escaped : Bool) : List Char → List Char
  | [] => []
  | c :: cs =>
    match quote with
    | some q =>
      if escaped then c :: beforeComment quote false cs
      else if c = '\\' then c :: beforeComment quote true cs
      else if c = q then c :: beforeComment none false cs
      else c :: beforeComment quote false cs
    | none =>
      if c = '\'' ∨ c = '"' then c :: beforeComment (some c) false cs
      else if c = '#' then []
      else c :: beforeComment none false cs

/-- A line without tabs. -/
def withoutTabs (cs : List Char) : List Char :=
  cs.map fun c => if c = '\t' then ' ' else c

/-- What is left of a line. -/
def cleanLine (cs : List Char) : List Char :=
  Text.trim (beforeComment none false (withoutTabs cs))

/-- The clean lines of a script. -/
def cleanLines (cs : List Char) : List (List Char) :=
  ((Text.pieces '\n' cs).map cleanLine).filter fun line => !line.isEmpty

/-! ## Blocks -/

/-- A block of a script. -/
structure Block where
  keyword : Keyword
  /-- What follows the keyword on its line, if anything does. -/
  header : Option String
  body : List String
deriving DecidableEq, Repr

/-- Whether a line starts a block. -/
def startsBlock : List Char → Bool
  | '@' :: _ => true
  | _ => false

/-- The block of a first line and the lines below it. -/
def makeBlock (first : List Char) (below : List (List Char)) : Except Error Block :=
  let word := Text.firstWord first
  match Keyword.ofWord? (String.ofList word.1) with
  | none => .error (.unknownKeyword (String.ofList word.1))
  | some keyword =>
    let header := if word.2.isEmpty then none else some (String.ofList word.2)
    .ok ⟨keyword, header, below.map String.ofList⟩

/-- The blocks of clean lines. -/
def blocksOf (lines : List (List Char)) : Except Error (List Block) :=
  match lines with
  | [] => .ok []
  | first :: rest =>
    if startsBlock first then
      match makeBlock first (rest.takeWhile fun line => !startsBlock line) with
      | .error error => .error error
      | .ok block =>
        match blocksOf (rest.dropWhile fun line => !startsBlock line) with
        | .error error => .error error
        | .ok blocks => .ok (block :: blocks)
    else .error (.malformed (.strayText (String.ofList first)))
termination_by lines.length
decreasing_by
  have := (List.dropWhile_sublist (fun line => !startsBlock line) (l := rest)).length_le
  simp only [List.length_cons]
  omega

namespace Block

/-- The header, if there is one, and the body. -/
def lines (block : Block) : List String := block.header.toList ++ block.body

/-- The header and the body as one text. -/
def arguments (block : Block) : String := String.intercalate " " block.lines

/-- The properties that a header gives. -/
def properties (block : Block) : Except Error Dict :=
  match block.header with
  | none => .ok Dict.empty
  | some header => readDict header

end Block

end Conditioning
