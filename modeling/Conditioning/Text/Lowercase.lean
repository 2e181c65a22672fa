import Conditioning.Text.LetterCase

/-!
# Lowering a text

Every letter is replaced by its lower form.  Two letters need more than the
runs of letters: the dotted capital I becomes two characters, and a capital
sigma becomes the final form when it ends a word, that is when a cased letter
stands before it and none after it, ignorable characters passed over.
-/

namespace Conditioning.Text

/-- Whether a character lies in one of the ranges. -/
def inRanges (ranges : List (Nat × Nat)) (c : Char) : Bool :=
  ranges.any fun range => range.1 ≤ c.toNat && c.toNat ≤ range.2

/-- The lower form of a letter that has one of one character, and any other character as it is. -/
def lowerChar (c : Char) : Char :=
  let n := c.toNat
  let run := lowerRuns.find? fun run =>
    run.first ≤ n && n ≤ run.last && (n - run.first) % run.step == 0
  match run with
  | some run => Char.ofNat (run.target + (n - run.first))
  | none => c

/-- Whether the nearest character that is not ignorable is a cased letter. -/
def nextIsCased (cs : List Char) : Bool :=
  match cs.dropWhile (inRanges ignorableRanges) with
  | [] => false
  | c :: _ => inRanges casedRanges c

/-- Lower the rest of a text, given the characters before it, nearest first. -/
def lowerAfter (before : List Char) : List Char → List Char
  | [] => []
  | c :: cs =>
    let lowered :=
      if c = 'Σ' then
        if nextIsCased before && !nextIsCased cs then ['ς'] else ['σ']
      else if c = 'İ' then ['i', '\u0307']
      else [lowerChar c]
    lowered ++ lowerAfter (c :: before) cs

/-- The text with every letter in its lower form. -/
def lowercase (text : String) : String :=
  String.ofList (lowerAfter [] text.toList)

end Conditioning.Text
