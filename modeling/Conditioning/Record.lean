import Conditioning.Mechanism.Learning

/-!
# Records

A record says what happened to one subject.  Step zero is the start, and step
`k` is the state after the `k`-th stimulus.  Weights and saliences are recorded
as points, only when they may have changed, and a second point of the same step
replaces the first.  Read as a series, a point holds until the next one, and
the first point also holds before its own step.
-/

namespace Conditioning

/-- A stimulus and the response to it. -/
structure HistoryEntry where
  stimulus : Stimulus
  response : BehaviorId
deriving DecidableEq, Repr

/-- A value and the step from which it holds. -/
structure Point where
  step : Nat
  value : Float

/-! ## Series of points -/

namespace Point

/-- Add a point to points listed from the newest to the oldest. -/
def push (step : Nat) (value : Float) : List Point → List Point
  | [] => [⟨step, value⟩]
  | newest :: older =>
    if newest.step = step then ⟨step, value⟩ :: older
    else ⟨step, value⟩ :: newest :: older

/-- The value that holds at a step, and the points still to come. -/
def absorb (step : Nat) (held : Float) : List Point → Float × List Point
  | [] => (held, [])
  | point :: points =>
    if point.step ≤ step then absorb step point.value points else (held, point :: points)

/-- The values that hold at `n` steps, from a step on, given points from the oldest to the
newest. -/
def fill (step : Nat) (held : Float) (points : List Point) : Nat → List Float
  | 0 => []
  | n + 1 =>
    let now := absorb step held points
    now.1 :: fill (step + 1) now.1 now.2 n

/-- The series of `n` steps that points, newest first, stand for. -/
def series (points : List Point) (n : Nat) : List Float :=
  match points.reverse with
  | [] => fill 0 0.0 [] n
  | first :: rest => fill 0 first.value (first :: rest) n

theorem length_fill (step : Nat) (held : Float) (points : List Point) (n : Nat) :
    (fill step held points n).length = n := by
  induction n generalizing step held points with
  | zero => rfl
  | succ n ih => simp [fill, ih]

theorem length_series (points : List Point) (n : Nat) : (series points n).length = n := by
  unfold series
  split <;> exact length_fill ..

end Point

/-! ## Records of subjects -/

/-- What happened to one subject. -/
structure Record where
  /-- The points of each pair's weight, newest first. -/
  v : Array (List Point)
  /-- The points of each element's salience, newest first. -/
  w : Array (List Point)
  phases : Array Nat
  /-- What was shown and done at each step after the start. -/
  history : Array HistoryEntry
  /-- The last step, once the record is closed. -/
  lastStep : Option Nat
  /-- The last stimulus and response, if there was one when the record was closed. -/
  lastEntry : Option HistoryEntry

namespace Record

/-- The record of nothing. -/
def empty (vocabulary : Vocabulary) : Record where
  v := Array.replicate vocabulary.pairCount []
  w := Array.replicate vocabulary.elementCount []
  phases := #[]
  history := #[]
  lastStep := none
  lastEntry := none

/-- Note the weight of a pair at a step. -/
def noteV (record : Record) (pair step : Nat) (value : Float) : Record :=
  { record with v := record.v.modify pair (Point.push step value) }

/-- Note the salience of an element at a step. -/
def noteW (record : Record) (element step : Nat) (value : Float) : Record :=
  { record with w := record.w.modify element (Point.push step value) }

/-- Note the phase of a step; steps left out before it belong to the same phase. -/
def notePhase (record : Record) (phase step : Nat) : Record :=
  let grown := record.phases ++ Array.replicate (step + 1 - record.phases.size) phase
  { record with phases := grown.setIfInBounds step phase }

/-- Note what was shown and done. -/
def noteEntry (record : Record) (entry : HistoryEntry) : Record :=
  { record with history := record.history.push entry }

/-- Close the record. -/
def close (record : Record) (step : Nat) (entry : Option HistoryEntry) : Record :=
  { record with lastStep := some step, lastEntry := entry }

/-- Note the weights of some elements with one behavior, and their saliences if they are kept. -/
def noteUpdated (record : Record) (m : Mechanism Float) (l : Learner Float) (step : Nat)
    (behavior : BehaviorId) (elements : List ElementId) : Record :=
  elements.foldl (fun record element =>
    let noted := record.noteV (m.vocabulary.pair element behavior) step (m.weight l element behavior)
    if m.hasSalience then noted.noteW element step (l.w.read element) else noted) record

/-- Note the weights of some elements with one behavior. -/
def noteShown (record : Record) (m : Mechanism Float) (l : Learner Float) (step : Nat)
    (behavior : BehaviorId) (elements : List ElementId) : Record :=
  elements.foldl (fun record element =>
    record.noteV (m.vocabulary.pair element behavior) step (m.weight l element behavior)) record

/-- Note every weight of an element. -/
def noteRow (record : Record) (m : Mechanism Float) (l : Learner Float) (step : Nat)
    (element : ElementId) : Record :=
  (List.range m.vocabulary.behaviorCount).foldl (fun record behavior =>
    record.noteV (m.vocabulary.pair element behavior) step (m.weight l element behavior)) record

/-- Note every weight, and every salience if they are kept. -/
def noteAll (record : Record) (m : Mechanism Float) (l : Learner Float) (step : Nat) : Record :=
  (List.range m.vocabulary.elementCount).foldl (fun record element =>
    let noted := if m.hasSalience then record.noteW element step (l.w.read element) else record
    noted.noteRow m l step element) record

/-! ## Reading a record -/

variable (record : Record)

/-- The number of steps, the start included. -/
def stepCount : Nat := record.phases.size

/-- The phase of a step. -/
def phaseOf? (step : Nat) : Option Nat := record.phases[step]?

/-- The weight of a pair at every step. -/
def seriesV (pair : Nat) : List Float :=
  Point.series (record.v.getD pair []) record.stepCount

/-- The salience of an element at every step; empty if it was never noted. -/
def seriesW (element : ElementId) : List Float :=
  match record.w.getD element [] with
  | [] => []
  | points => Point.series points record.stepCount

theorem length_seriesV (pair : Nat) : (record.seriesV pair).length = record.stepCount :=
  Point.length_series ..

end Record

end Conditioning
