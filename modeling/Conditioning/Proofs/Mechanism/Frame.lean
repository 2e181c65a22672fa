import Conditioning.Mechanism.Learning

/-!
# What a step of learning can change

A step learns about the stimulus before and the response to it.  It writes the
cells of the elements of that stimulus with that response (`Mechanism.cellsBefore`),
and, where saliences are kept, the cells of these elements
(`Learner.elementsBefore`); whatever the rule, its errors and rates, it leaves
all other cells as they are.  The stimulus that appears and the new response are
only remembered.  No step changes the size of a table.
-/

namespace Conditioning

/-- The elements shown on the step before, none on the first step. -/
def Learner.elementsBefore {α : Type} (l : Learner α) : List ElementId :=
  match l.previous with
  | none => []
  | some (before, _) => before.elements

namespace Mechanism

variable {α : Type} (m : Mechanism α)

/-- The cells of some elements with one behavior. -/
def pairCells (behavior : BehaviorId) (elements : List ElementId) : List Nat :=
  elements.map fun element => m.vocabulary.pair element behavior

/-- The cells of the elements before with the response before, none on the first step. -/
def cellsBefore (l : Learner α) : List Nat :=
  match l.previous with
  | none => []
  | some (before, response) => m.pairCells response before.elements

variable [Scalar α]

/-! ## The two tables -/

theorem read_moveWeights_of_not_mem (v : Table α) {elements : List ElementId}
    {response : BehaviorId} (error : α) {i : Nat} (h : i ∉ m.pairCells response elements) :
    (m.moveWeights v elements response error).read i = v.read i := by
  unfold moveWeights
  induction elements generalizing v with
  | nil => rfl
  | cons element elements ih =>
    have hne := List.ne_of_not_mem_cons h
    rw [List.foldl_cons, ih _ (List.not_mem_of_not_mem_cons h)]
    exact v.read_add_of_ne _ fun heq => hne heq.symm

theorem read_moveSaliences_of_not_mem (w : Table α) {elements : List ElementId} (error : α)
    {i : Nat} (h : i ∉ elements) : (m.moveSaliences w elements error).read i = w.read i := by
  unfold moveSaliences
  induction elements generalizing w with
  | nil => rfl
  | cons element elements ih =>
    have hne := List.ne_of_not_mem_cons h
    rw [List.foldl_cons, ih _ (List.not_mem_of_not_mem_cons h)]
    exact w.read_add_of_ne _ fun heq => hne heq.symm

@[simp] theorem size_moveWeights (v : Table α) (elements : List ElementId)
    (response : BehaviorId) (error : α) :
    (m.moveWeights v elements response error).size = v.size := by
  unfold moveWeights
  induction elements generalizing v with
  | nil => rfl
  | cons element elements ih => rw [List.foldl_cons, ih, Table.size_add]

@[simp] theorem size_moveSaliences (w : Table α) (elements : List ElementId) (error : α) :
    (m.moveSaliences w elements error).size = w.size := by
  unfold moveSaliences
  induction elements generalizing w with
  | nil => rfl
  | cons element elements ih => rw [List.foldl_cons, ih, Table.size_add]

/-! ## A step -/

/-- A step learns nothing, or it updates for the step before. -/
theorem learn_cases (l : Learner α) (stimulus : Stimulus) :
    m.learn l stimulus = l ∨
      ∃ before response, l.previous = some (before, response) ∧
        m.learn l stimulus = m.update l before response stimulus := by
  unfold learn
  split
  · exact .inl rfl
  · cases hprevious : l.previous with
    | none => exact .inl rfl
    | some previous => exact .inr ⟨previous.1, previous.2, rfl, rfl⟩

/-- A step changes no weight but those of the elements before with the response before. -/
theorem read_v_step (l : Learner α) (stimulus : Stimulus) (r : α) {i : Nat}
    (h : i ∉ m.cellsBefore l) : (m.step l stimulus r).2.v.read i = l.v.read i := by
  show (m.learn l stimulus).v.read i = l.v.read i
  rcases m.learn_cases l stimulus with hlearn | ⟨before, response, hprevious, hlearn⟩
  · rw [hlearn]
  · rw [hlearn]
    simp only [cellsBefore, hprevious] at h
    exact m.read_moveWeights_of_not_mem _ _ h

/-- A step changes no salience but those of the elements before. -/
theorem read_w_step (l : Learner α) (stimulus : Stimulus) (r : α) {i : Nat}
    (h : i ∉ l.elementsBefore) : (m.step l stimulus r).2.w.read i = l.w.read i := by
  show (m.learn l stimulus).w.read i = l.w.read i
  rcases m.learn_cases l stimulus with hlearn | ⟨before, response, hprevious, hlearn⟩
  · rw [hlearn]
  · rw [hlearn]
    simp only [Learner.elementsBefore, hprevious] at h
    simp only [update]
    split
    · exact m.read_moveSaliences_of_not_mem _ _ h
    · rfl

@[simp] theorem size_v_step (l : Learner α) (stimulus : Stimulus) (r : α) :
    (m.step l stimulus r).2.v.size = l.v.size := by
  show (m.learn l stimulus).v.size = l.v.size
  rcases m.learn_cases l stimulus with hlearn | ⟨before, response, -, hlearn⟩
  · rw [hlearn]
  · rw [hlearn]
    exact m.size_moveWeights _ _ _ _

@[simp] theorem size_w_step (l : Learner α) (stimulus : Stimulus) (r : α) :
    (m.step l stimulus r).2.w.size = l.w.size := by
  show (m.learn l stimulus).w.size = l.w.size
  rcases m.learn_cases l stimulus with hlearn | ⟨before, response, -, hlearn⟩
  · rw [hlearn]
  · rw [hlearn]
    simp only [update]
    split
    · exact m.size_moveSaliences _ _ _
    · rfl

end Mechanism

end Conditioning
