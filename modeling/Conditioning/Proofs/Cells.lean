import Mathlib.Logic.Function.Iterate

/-!
# Cells that are changed in turn

A table of counts is changed one cell at a time, with each occurrence the cell of
its index.  In the end a cell was changed as often as its index occurred
(`getD_foldl_modify`), whatever the counts are.
-/

namespace Conditioning

variable {α : Type} (f : α → α)

theorem getD_modify {cells : Array α} {j : Nat} (h : j < cells.size) (i : Nat) (d : α) :
    (cells.modify i f).getD j d = if i = j then f (cells.getD j d) else cells.getD j d := by
  simp only [Array.getD_eq_getD_getElem?, Array.getElem?_modify]
  split <;> simp [h]

theorem size_foldl_modify (indices : List Nat) (cells : Array α) :
    (indices.foldl (fun cells i => cells.modify i f) cells).size = cells.size := by
  induction indices generalizing cells with
  | nil => rfl
  | cons i indices ih => rw [List.foldl_cons, ih, Array.size_modify]

/-- A cell is changed as often as its index occurs. -/
theorem getD_foldl_modify (indices : List Nat) {cells : Array α} {j : Nat} (h : j < cells.size)
    (d : α) :
    (indices.foldl (fun cells i => cells.modify i f) cells).getD j d =
      f^[indices.count j] (cells.getD j d) := by
  induction indices generalizing cells with
  | nil => rfl
  | cons i indices ih =>
    have hsize : j < (cells.modify i f).size := by rwa [Array.size_modify]
    rw [List.foldl_cons, ih hsize, getD_modify f h, List.count_cons]
    by_cases hi : i = j
    · simp [hi, Function.iterate_add_apply]
    · simp [hi]

end Conditioning
