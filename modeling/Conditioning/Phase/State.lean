import Conditioning.Phase.Graph

/-!
# The state of a phase

While a phase runs it knows its current line and the line before, and how often
each line, element and behavior has occurred.  Each line keeps the succession of
visits that it was last in: how often it was left for itself, and with which
response.  A succession is brought up to date when its line is left and at no
other time, so a line that was left for another keeps an old one until it is
left again.

All counters are words of thirty-two bits.  One more than the greatest word is
zero.

A reset puts everything back to where it was before the first stimulus.
-/

namespace Conditioning

/-- How often things have occurred, each counted in a word. -/
structure Tally where
  lineWords : Array UInt32
  elementWords : Array UInt32
  behaviorWords : Array UInt32
deriving DecidableEq, Repr

namespace Tally

/-- Nothing has occurred. -/
def start (phase : Phase) : Tally where
  lineWords := Array.replicate phase.lines.length 0
  elementWords := Array.replicate phase.vocabulary.elementCount 0
  behaviorWords := Array.replicate phase.vocabulary.behaviorCount 0

/-- Set every count to zero. -/
def reset (tally : Tally) : Tally where
  lineWords := tally.lineWords.map fun _ => 0
  elementWords := tally.elementWords.map fun _ => 0
  behaviorWords := tally.behaviorWords.map fun _ => 0

/-- The word in which a key is counted. -/
def word (tally : Tally) : EndKey → UInt32
  | .line line => tally.lineWords.getD line 0
  | .element element => tally.elementWords.getD element 0
  | .behavior behavior => tally.behaviorWords.getD behavior 0

/-- The count that an end condition looks at. -/
def get (tally : Tally) (key : EndKey) : Nat := (tally.word key).toNat

/-- Count one occurrence. -/
def bump (counts : Array UInt32) (i : Nat) : Array UInt32 := counts.modify i (· + 1)

/-- Count the visit of a line, the elements it shows, and the response that led to it. -/
def record (tally : Tally) (line : Nat) (stimulus : Stimulus) (response : Option BehaviorId) :
    Tally where
  lineWords := bump tally.lineWords line
  elementWords := stimulus.elements.foldl bump tally.elementWords
  behaviorWords := match response with
    | some behavior => bump tally.behaviorWords behavior
    | none => tally.behaviorWords

/-- The counts of the lines. -/
def lines (tally : Tally) : Array Nat := tally.lineWords.map UInt32.toNat

/-- The counts of the elements. -/
def elements (tally : Tally) : Array Nat := tally.elementWords.map UInt32.toNat

/-- The counts of the behaviors. -/
def behaviors (tally : Tally) : Array Nat := tally.behaviorWords.map UInt32.toNat

end Tally

/-- The succession of visits that a line is in. -/
structure Streak where
  visits : UInt32
  /-- How many of the visits had the same response. -/
  repeats : UInt32
  response : Option BehaviorId
deriving DecidableEq, Repr

namespace Streak

/-- No succession yet. -/
def start : Streak := ⟨1, 1, none⟩

/-- The succession after a response, which goes on if the line before was the same. -/
def extend (streak : Streak) (goesOn : Bool) (response : Option BehaviorId) : Streak :=
  if goesOn then
    ⟨streak.visits + 1, if streak.response = response then streak.repeats + 1 else 1, response⟩
  else ⟨1, 1, response⟩

end Streak

/-- The state of a phase. -/
structure PhaseState where
  /-- Whether the first stimulus was shown. -/
  started : Bool
  current : Nat
  /-- The line before, if there was one. -/
  previous : Option Nat
  /-- The succession of visits that each line was last in. -/
  streaks : Array Streak
  tally : Tally
deriving DecidableEq, Repr

namespace PhaseState

/-- The state before the first stimulus. -/
def start (phase : Phase) : PhaseState where
  started := false
  current := 0
  previous := none
  streaks := Array.replicate phase.lines.length Streak.start
  tally := Tally.start phase

/-- Back to the state before the first stimulus. -/
def reset (state : PhaseState) : PhaseState where
  started := false
  current := 0
  previous := none
  streaks := state.streaks.map fun _ => Streak.start
  tally := state.tally.reset

/-- The succession that the current line is in once it is left with a response. -/
def leaving (state : PhaseState) (response : Option BehaviorId) : Streak :=
  (state.streaks.getD state.current Streak.start).extend
    (state.previous == some state.current) response

/-- The state in which the current line was left with a response. -/
def leave (state : PhaseState) (response : Option BehaviorId) : PhaseState :=
  { state with streaks := state.streaks.setIfInBounds state.current (state.leaving response) }

/-- The state in which the current line was left with a response for another line. -/
def moveTo (state : PhaseState) (target : Nat) (response : Option BehaviorId) : PhaseState :=
  { state.leave response with current := target, previous := some state.current }

end PhaseState

end Conditioning
