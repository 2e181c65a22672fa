import Conditioning.Scalar

/-!
# Tables

A table holds a scalar for each number below its size.  Writing changes the one
cell it names and no other, and never the size; a place beyond the size reads
as zero and takes no value.
-/

namespace Conditioning

/-- A table of scalars. -/
structure Table (α : Type) where
  cells : Array α

namespace Table

variable {α : Type}

/-- The number of cells. -/
def size (t : Table α) : Nat := t.cells.size

/-- The table of `n` equal cells. -/
def fill (n : Nat) (x : α) : Table α := ⟨Array.replicate n x⟩

/-- Give every cell one value. -/
def refill (t : Table α) (x : α) : Table α := ⟨t.cells.map fun _ => x⟩

/-- Write a cell. -/
def put (t : Table α) (i : Nat) (x : α) : Table α := ⟨t.cells.setIfInBounds i x⟩

/-- The cells in order. -/
def toList (t : Table α) : List α := t.cells.toList

variable [Scalar α]

/-- Read a cell. -/
def read (t : Table α) (i : Nat) : α := t.cells.getD i Scalar.zero

/-- Add to a cell. -/
def add (t : Table α) (i : Nat) (x : α) : Table α := t.put i (t.read i + x)

omit [Scalar α] in
@[simp] theorem size_fill (n : Nat) (x : α) : (fill n x).size = n := by simp [fill, size]

omit [Scalar α] in
@[simp] theorem size_refill (t : Table α) (x : α) : (t.refill x).size = t.size := by
  simp [refill, size]

omit [Scalar α] in
@[simp] theorem size_put (t : Table α) (i : Nat) (x : α) : (t.put i x).size = t.size := by
  simp [put, size]

@[simp] theorem size_add (t : Table α) (i : Nat) (x : α) : (t.add i x).size = t.size := by
  simp [add]

theorem read_put (t : Table α) (i j : Nat) (x : α) :
    (t.put i x).read j = if i = j ∧ i < t.size then x else t.read j := by
  simp only [put, read, size, Array.getD_eq_getD_getElem?, Array.getElem?_setIfInBounds]
  by_cases hij : i = j
  · subst hij
    by_cases hi : i < t.cells.size
    · simp [hi]
    · simp [hi]
  · simp [hij]

theorem read_fill (n i : Nat) (x : α) :
    (fill n x).read i = if i < n then x else Scalar.zero := by
  simp only [fill, read, Array.getD_eq_getD_getElem?, Array.getElem?_replicate]
  split <;> simp_all

theorem read_add_of_ne (t : Table α) {i j : Nat} (x : α) (h : i ≠ j) :
    (t.add i x).read j = t.read j := by
  simp [add, read_put, h]

theorem read_add_self (t : Table α) {i : Nat} (x : α) (h : i < t.size) :
    (t.add i x).read i = t.read i + x := by
  simp [add, read_put, h]

end Table

end Conditioning
