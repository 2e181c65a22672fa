import Conditioning.Table
import Conditioning.Vocabulary

/-!
# Checked access

The tables and lists of a run are read and written by number.  In the definitions
a number that is out of range reads a default and writes nothing.  Checked access
gives no result instead.  Where a checked computation gives a result, every number
that it used was in range.

Checked functions have the name of the function that they check, with a question
mark.  That one agrees with the other is always stated the same way: the checked
function gives what the function gives (`read?_eq`, `pair?_eq` and so on).
-/

namespace Conditioning

section

variable {α β σ : Type}

/-- A list is computed if each of its members is. -/
theorem mapM_eq_some {f? : α → Option β} {f : α → β} {xs : List α}
    (h : ∀ x ∈ xs, f? x = some (f x)) : xs.mapM f? = some (xs.map f) := by
  induction xs with
  | nil => rfl
  | cons x xs ih =>
    obtain ⟨hx, hxs⟩ := List.forall_mem_cons.1 h
    rw [List.mapM_cons, hx, ih hxs]
    rfl

/-- A fold is computed if each of its steps is, given what the steps before it keep. -/
theorem foldlM_eq_some {P : σ → Prop} {f? : σ → α → Option σ} {f : σ → α → σ} {xs : List α}
    (h : ∀ s, P s → ∀ x ∈ xs, f? s x = some (f s x) ∧ P (f s x)) {s : σ} (hs : P s) :
    xs.foldlM f? s = some (xs.foldl f s) ∧ P (xs.foldl f s) := by
  induction xs generalizing s with
  | nil => exact ⟨rfl, hs⟩
  | cons x xs ih =>
    obtain ⟨hx, hnext⟩ := h s hs x List.mem_cons_self
    rw [List.foldlM_cons, hx]
    exact ih (fun s hs x hx => h s hs x (List.mem_cons_of_mem _ hx)) hnext

/-- A list is filtered if each of its members is decided. -/
theorem filterM_eq_some {p? : α → Option Bool} {p : α → Bool} {xs : List α}
    (h : ∀ x ∈ xs, p? x = some (p x)) : xs.filterM p? = some (xs.filter p) := by
  have haux (kept : List α) :
      xs.filterAuxM p? kept = some ((xs.filter p).reverse ++ kept) := by
    induction xs generalizing kept with
    | nil => rfl
    | cons x xs ih =>
      obtain ⟨hx, hxs⟩ := List.forall_mem_cons.1 h
      rw [List.filterAuxM, hx, Option.bind_eq_bind, Option.bind_some, ih hxs, List.filter_cons]
      cases p x <;> simp
  rw [List.filterM, haux]
  simp

/-- Compute the members of a list up to the first one that fails. -/
def untilError? {ε : Type} (f? : α → Option (Except ε β)) : List α → Option (Except ε (List β))
  | [] => some (.ok [])
  | x :: xs =>
    match f? x with
    | none => none
    | some (.error e) => some (.error e)
    | some (.ok y) => (untilError? f? xs).map fun result => result.map (y :: ·)

theorem untilError?_eq {ε : Type} {f? : α → Option (Except ε β)} {f : α → Except ε β}
    {xs : List α} (h : ∀ x ∈ xs, f? x = some (f x)) :
    untilError? f? xs = some (xs.mapM f) := by
  induction xs with
  | nil => rfl
  | cons x xs ih =>
    obtain ⟨hx, hxs⟩ := List.forall_mem_cons.1 h
    rw [untilError?, hx, ih hxs, List.mapM_cons]
    cases f x with
    | error e => rfl
    | ok y => cases xs.mapM f <;> rfl

/-! ## Arrays -/

/-- Write a cell that has to be there. -/
def put? (xs : Array α) (i : Nat) (x : α) : Option (Array α) :=
  if i < xs.size then some (xs.setIfInBounds i x) else none

/-- Change a cell that has to be there. -/
def modify? (xs : Array α) (i : Nat) (f : α → α) : Option (Array α) :=
  if i < xs.size then some (xs.modify i f) else none

theorem put?_eq {xs : Array α} {i : Nat} (h : i < xs.size) (x : α) :
    put? xs i x = some (xs.setIfInBounds i x) :=
  if_pos h

theorem modify?_eq {xs : Array α} {i : Nat} (h : i < xs.size) (f : α → α) :
    modify? xs i f = some (xs.modify i f) :=
  if_pos h

theorem getElem?_eq_getD {xs : Array α} {i : Nat} (h : i < xs.size) (x : α) :
    xs[i]? = some (xs.getD i x) := by
  rw [Array.getD_eq_getD_getElem?, Array.getElem?_eq_getElem h]
  rfl

end

/-! ## Tables -/

namespace Table

variable {α : Type} [Scalar α]

/-- Read a cell that has to be there. -/
def read? (t : Table α) (i : Nat) : Option α := t.cells[i]?

/-- Add to a cell that has to be there. -/
def add? (t : Table α) (i : Nat) (x : α) : Option (Table α) := do
  let y ← t.read? i
  let cells ← put? t.cells i (y + x)
  return ⟨cells⟩

/-- The sum of some cells that have to be there. -/
def sumOf? (t : Table α) (cells : List Nat) : Option α := do
  let values ← cells.mapM t.read?
  return Scalar.sum values

theorem read?_eq {t : Table α} {i : Nat} (h : i < t.size) : t.read? i = some (t.read i) :=
  getElem?_eq_getD h Scalar.zero

theorem add?_eq {t : Table α} {i : Nat} (h : i < t.size) (x : α) :
    t.add? i x = some (t.add i x) := by
  have hlt : i < t.cells.size := h
  rw [add?, read?_eq h, Option.bind_eq_bind, Option.bind_some, put?_eq hlt]
  rfl

theorem sumOf?_eq {t : Table α} {cells : List Nat} (h : ∀ i ∈ cells, i < t.size) :
    t.sumOf? cells = some (Scalar.sum (cells.map t.read)) := by
  rw [sumOf?, mapM_eq_some fun i hi => read?_eq (h i hi)]
  rfl

end Table

/-! ## Pairs -/

namespace Vocabulary

/-- The number of a pair of a declared element and a declared behavior. -/
def pair? (vocabulary : Vocabulary) (element : ElementId) (behavior : BehaviorId) : Option Nat :=
  if element < vocabulary.elementCount ∧ behavior < vocabulary.behaviorCount then
    some (vocabulary.pair element behavior)
  else none

theorem pair?_eq {vocabulary : Vocabulary} {element : ElementId} {behavior : BehaviorId}
    (helement : element < vocabulary.elementCount)
    (hbehavior : behavior < vocabulary.behaviorCount) :
    vocabulary.pair? element behavior = some (vocabulary.pair element behavior) :=
  if_pos ⟨helement, hbehavior⟩

end Vocabulary

end Conditioning
