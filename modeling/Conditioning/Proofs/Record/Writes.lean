import Conditioning.Proofs.Mechanism.Frame
import Conditioning.Proofs.Record.Series

/-!
# What a record notes

Noting goes through elements one by one.  For the two tables of points it comes
to the same as writing a list of cells, each with the value that the learner's
table has there (`Point.pushAll`).  The order of the cells does not matter, and
neither does it matter whether one is named twice: the last point of a step
replaces the others, and all of them have one value.
-/

namespace Conditioning

namespace Point

/-! ## Writing cells -/

/-- Add a point of one step to each of some cells. -/
def pushAll (step : Nat) (value : Nat → Float) (cells : List Nat) (points : Array (List Point)) :
    Array (List Point) :=
  cells.foldl (fun points i => points.modify i (push step (value i))) points

theorem pushAll_append (step : Nat) (value : Nat → Float) (cells cells' : List Nat)
    (points : Array (List Point)) :
    pushAll step value (cells ++ cells') points =
      pushAll step value cells' (pushAll step value cells points) :=
  List.foldl_append

theorem getElem?_pushAll (step : Nat) (value : Nat → Float) (cells : List Nat)
    (points : Array (List Point)) (i : Nat) :
    (pushAll step value cells points)[i]? =
      if i ∈ cells then points[i]?.map (push step (value i)) else points[i]? := by
  induction cells generalizing points with
  | nil => rfl
  | cons cell cells ih =>
    have hstep : pushAll step value (cell :: cells) points =
        pushAll step value cells (points.modify cell (push step (value cell))) := rfl
    rw [hstep, ih, Array.getElem?_modify]
    by_cases hcell : cell = i
    · subst hcell
      -- the cell may be written again, with the same value
      by_cases hmem : cell ∈ cells
      · simp [hmem, Function.comp_def]
      · simp [hmem]
    · have hne : i ≠ cell := fun h => hcell h.symm
      simp [hcell, hne]

/-- A cell of an array of points that follows a value. -/
def CellFollows (points : Array (List Point)) (i n : Nat) (value : Nat → Option Float) : Prop :=
  ∃ cell, points[i]? = some cell ∧ Follows cell n value

/-- A cell still follows its value when all cells where it may have changed are written. -/
theorem CellFollows.pushAll {points : Array (List Point)} {cells : List Nat} {i n step : Nat}
    {value : Nat → Option Float} {now : Nat → Float} (h : CellFollows points i n value)
    (hle : n ≤ step) (hstep : step ≤ n + 1) (hnow : value step = some (now i))
    (hframe : i ∉ cells → value step = value n) :
    CellFollows (pushAll step now cells points) i step value := by
  obtain ⟨cell, hcell, hfollows⟩ := h
  unfold CellFollows
  rw [getElem?_pushAll]
  by_cases hmem : i ∈ cells
  · rw [if_pos hmem, hcell]
    exact ⟨_, rfl, hfollows.note hle hstep hnow⟩
  · rw [if_neg hmem]
    refine ⟨cell, hcell, ?_⟩
    rcases Nat.lt_or_eq_of_le hle with hlt | rfl
    · obtain rfl : step = n + 1 := by omega
      exact hfollows.stay (hframe hmem)
    · exact hfollows

/-- The first note of a cell. -/
theorem CellFollows.start {points : Array (List Point)} {cells : List Nat} {i : Nat}
    {value : Nat → Option Float} {now : Nat → Float} (hempty : points[i]? = some [])
    (hmem : i ∈ cells) (hnow : value 0 = some (now i)) :
    CellFollows (Point.pushAll 0 now cells points) i 0 value := by
  unfold CellFollows
  rw [getElem?_pushAll, if_pos hmem, hempty]
  exact ⟨_, rfl, .start hnow⟩

end Point

namespace Record

variable (m : Mechanism Float) (l : Learner Float) (step : Nat)

/-! ## The cells that are noted -/

/-- The cells of an element. -/
def rowCells (element : ElementId) : List Nat :=
  (List.range m.vocabulary.behaviorCount).map (m.vocabulary.pair element)

theorem noteUpdated_eq (record : Record) (behavior : BehaviorId) (elements : List ElementId) :
    record.noteUpdated m l step behavior elements =
      { record with
        v := Point.pushAll step l.v.read (m.pairCells behavior elements) record.v
        w := if m.hasSalience then Point.pushAll step l.w.read elements record.w
          else record.w } := by
  unfold noteUpdated
  induction elements generalizing record with
  | nil => simp [Mechanism.pairCells, Point.pushAll]
  | cons element elements ih =>
    rw [List.foldl_cons, ih]
    split <;> rfl

theorem noteShown_eq (record : Record) (behavior : BehaviorId) (elements : List ElementId) :
    record.noteShown m l step behavior elements =
      { record with
        v := Point.pushAll step l.v.read (m.pairCells behavior elements) record.v } := by
  unfold noteShown
  induction elements generalizing record with
  | nil => rfl
  | cons element elements ih => exact ih _

theorem noteRow_eq (record : Record) (element : ElementId) :
    record.noteRow m l step element =
      { record with v := Point.pushAll step l.v.read (rowCells m element) record.v } := by
  unfold noteRow rowCells
  generalize List.range m.vocabulary.behaviorCount = behaviors
  induction behaviors generalizing record with
  | nil => rfl
  | cons behavior behaviors ih => exact ih _

theorem noteAll_eq (record : Record) :
    record.noteAll m l step =
      { record with
        v := Point.pushAll step l.v.read
          ((List.range m.vocabulary.elementCount).flatMap (rowCells m)) record.v
        w := if m.hasSalience then
            Point.pushAll step l.w.read (List.range m.vocabulary.elementCount) record.w
          else record.w } := by
  unfold noteAll
  generalize List.range m.vocabulary.elementCount = elements
  induction elements generalizing record with
  | nil => simp [Point.pushAll]
  | cons element elements ih =>
    rw [List.foldl_cons, ih, noteRow_eq, List.flatMap_cons, Point.pushAll_append]
    split <;> rfl

theorem pair_mem_rowCells {element : ElementId} {behavior : BehaviorId}
    (h : behavior < m.vocabulary.behaviorCount) :
    m.vocabulary.pair element behavior ∈ rowCells m element :=
  List.mem_map_of_mem (List.mem_range.2 h)

/-! ## The phase of each step -/

theorem size_phases_notePhase (record : Record) (phase step : Nat) :
    (record.notePhase phase step).phases.size = max record.phases.size (step + 1) := by
  simp only [notePhase, Array.size_setIfInBounds, Array.size_append, Array.size_replicate]
  omega

end Record

end Conditioning
