import Conditioning.Record

/-!
# Points and series

Points are kept newest first, and a series is read off them from the oldest on.
Here the value that a series has at a step is told without reading: it is that
of the newest point not after the step (`Point.valueAt`).  This holds of points
that go back in time, which is how they are added.

A cell that is written when its value changes, and was written at the start,
follows its value (`Point.Follows`): the points tell the value at every step so
far.
-/

namespace Conditioning

namespace Point

/-! ## Reading forwards -/

/-- The value at a step of points from the oldest to the newest, if `held` holds before them. -/
def readFrom (held : Float) : List Point → Nat → Float
  | [], _ => held
  | point :: points, k => if point.step ≤ k then readFrom point.value points k else held

theorem absorb_fst (step : Nat) (held : Float) (points : List Point) :
    (absorb step held points).1 = readFrom held points step := by
  induction points generalizing held with
  | nil => rfl
  | cons point points ih =>
    simp only [absorb, readFrom]
    split
    · exact ih point.value
    · rfl

/-- What was absorbed is not missed later. -/
theorem readFrom_absorb {step k : Nat} (h : step ≤ k) (held : Float) (points : List Point) :
    readFrom (absorb step held points).1 (absorb step held points).2 k =
      readFrom held points k := by
  induction points generalizing held with
  | nil => rfl
  | cons point points ih =>
    simp only [absorb]
    split
    next hle =>
      rw [ih, readFrom, if_pos (Nat.le_trans hle h)]
    next => rfl

theorem getElem?_fill (step : Nat) (held : Float) (points : List Point) {n k : Nat} (h : k < n) :
    (fill step held points n)[k]? = some (readFrom held points (step + k)) := by
  induction n generalizing step held points k with
  | zero => cases h
  | succ n ih =>
    cases k with
    | zero => simp [fill, absorb_fst]
    | succ k =>
      have hk : k < n := Nat.lt_of_succ_lt_succ h
      have hstep : step + (k + 1) = step + 1 + k := by omega
      simp only [fill, List.getElem?_cons_succ]
      rw [ih (step + 1) _ _ hk, readFrom_absorb (by omega), hstep]

theorem readFrom_append_singleton (held : Float) (points : List Point) (newest : Point) (k : Nat) :
    readFrom held (points ++ [newest]) k =
      if (∀ point ∈ points, point.step ≤ k) ∧ newest.step ≤ k then newest.value
      else readFrom held points k := by
  induction points generalizing held with
  | nil => simp [readFrom]
  | cons point points ih =>
    by_cases h : point.step ≤ k
    · simp [readFrom, h, ih]
    · simp [readFrom, h]

/-! ## The value at a step -/

/-- The value at a step of points from the newest to the oldest: that of the first one not after
the step, or of the last one if there is none. -/
def valueAt : List Point → Nat → Float
  | [], _ => 0.0
  | [oldest], _ => oldest.value
  | newest :: older, k => if newest.step ≤ k then newest.value else valueAt older k

/-- Points that go back in time. -/
def Descending (points : List Point) : Prop :=
  points.Pairwise fun newer older => older.step < newer.step

theorem valueAt_cons_of_le {newest : Point} {k : Nat} (h : newest.step ≤ k) (older : List Point) :
    valueAt (newest :: older) k = newest.value := by
  cases older with
  | nil => rfl
  | cons => exact if_pos h

theorem valueAt_cons_of_lt {newest : Point} {k : Nat} (h : k < newest.step) {older : List Point}
    (hne : older ≠ []) : valueAt (newest :: older) k = valueAt older k := by
  cases older with
  | nil => exact absurd rfl hne
  | cons => exact if_neg (Nat.not_le_of_lt h)

theorem readFrom_reverse {points : List Point} (h : Descending points) {oldest : Point}
    (holdest : points.getLast? = some oldest) (k : Nat) :
    readFrom oldest.value points.reverse k = valueAt points k := by
  induction points with
  | nil => cases holdest
  | cons newest older ih =>
    obtain ⟨hnewest, holder⟩ := List.pairwise_cons.1 h
    rw [List.reverse_cons, readFrom_append_singleton]
    by_cases hne : older = []
    · subst hne
      cases holdest
      simp [readFrom, valueAt]
    · rw [List.getLast?_cons_of_ne_nil hne] at holdest
      rcases Nat.lt_or_ge k newest.step with hlt | hle
      · rw [if_neg (fun hk => Nat.not_le_of_lt hlt hk.2), valueAt_cons_of_lt hlt hne]
        exact ih holder holdest
      · have hall : ∀ point ∈ older.reverse, point.step ≤ k := by
          intro point hpoint
          have hlt := hnewest point (List.mem_reverse.1 hpoint)
          exact Nat.le_trans (Nat.le_of_lt hlt) hle
        rw [if_pos ⟨hall, hle⟩, valueAt_cons_of_le hle]

/-- The series of points tells their value at every step. -/
theorem getElem?_series {points : List Point} (h : Descending points) {n k : Nat} (hk : k < n) :
    (series points n)[k]? = some (valueAt points k) := by
  unfold series
  split
  next hnone =>
    rw [List.reverse_eq_nil_iff] at hnone
    rw [hnone, getElem?_fill _ _ _ hk]
    rfl
  next oldest rest hsome =>
    have holdest : points.getLast? = some oldest := by
      rw [← List.head?_reverse, hsome]
      rfl
    rw [getElem?_fill _ _ _ hk, ← hsome, Nat.zero_add, readFrom_reverse h holdest]

/-! ## Adding points -/

theorem mem_push {step : Nat} {value : Float} {points : List Point} {point : Point}
    (h : point ∈ push step value points) : point = ⟨step, value⟩ ∨ point ∈ points := by
  cases points with
  | nil => simpa [push] using h
  | cons newest older =>
    simp only [push] at h
    split at h
    · rcases List.mem_cons.1 h with rfl | h
      · exact .inl rfl
      · exact .inr (List.mem_cons_of_mem newest h)
    · exact List.mem_cons.1 h

theorem mk_mem_push (step : Nat) (value : Float) (points : List Point) :
    ⟨step, value⟩ ∈ push step value points := by
  cases points with
  | nil => exact List.mem_cons_self
  | cons newest older =>
    simp only [push]
    split <;> exact List.mem_cons_self

theorem mem_push_of_ne {step : Nat} {value : Float} {points : List Point} {point : Point}
    (h : point ∈ points) (hne : point.step ≠ step) : point ∈ push step value points := by
  cases points with
  | nil => cases h
  | cons newest older =>
    simp only [push]
    split
    next heq =>
      rcases List.mem_cons.1 h with rfl | h
      · exact absurd heq hne
      · exact List.mem_cons_of_mem _ h
    next => exact List.mem_cons_of_mem _ h

theorem Descending.push {points : List Point} (h : Descending points) {step : Nat}
    (hstep : ∀ point ∈ points, point.step ≤ step) (value : Float) :
    Descending (push step value points) := by
  cases points with
  | nil => exact List.pairwise_singleton _ _
  | cons newest older =>
    obtain ⟨hnewest, holder⟩ := List.pairwise_cons.1 h
    simp only [Point.push]
    split
    next heq => exact List.pairwise_cons.2 ⟨heq ▸ hnewest, holder⟩
    next hne =>
      have hlt : newest.step < step := Nat.lt_of_le_of_ne (hstep newest List.mem_cons_self) hne
      refine List.pairwise_cons.2 ⟨?_, h⟩
      intro point hpoint
      rcases List.mem_cons.1 hpoint with rfl | hpoint
      · exact hlt
      · exact Nat.lt_trans (hnewest point hpoint) hlt

/-- A point tells the value from its step on. -/
theorem valueAt_push_of_le {step k : Nat} (h : step ≤ k) (value : Float) (points : List Point) :
    valueAt (push step value points) k = value := by
  cases points with
  | nil => rfl
  | cons newest older =>
    simp only [push]
    split
    · exact valueAt_cons_of_le h older
    · exact valueAt_cons_of_le h (newest :: older)

/-- A point changes no value before its step, if there is a point before its step. -/
theorem valueAt_push_of_lt {step k : Nat} (h : k < step) (value : Float) {points : List Point}
    (hbefore : ∃ point ∈ points, point.step < step) :
    valueAt (push step value points) k = valueAt points k := by
  obtain ⟨point, hpoint, hlt⟩ := hbefore
  cases points with
  | nil => cases hpoint
  | cons newest older =>
    simp only [push]
    split
    next heq =>
      have hne : older ≠ [] := by
        rintro rfl
        cases List.mem_singleton.1 hpoint
        omega
      rw [valueAt_cons_of_lt h hne, valueAt_cons_of_lt (heq ▸ h) hne]
    next => exact valueAt_cons_of_lt h (List.cons_ne_nil newest older)

@[simp] theorem push_push (step : Nat) (value : Float) (points : List Point) :
    push step value (push step value points) = push step value points := by
  cases points with
  | nil => simp [push]
  | cons newest older =>
    by_cases h : newest.step = step
    · simp [push, h]
    · simp [push, h]

theorem valueAt_of_forall_le {points : List Point} {n k : Nat}
    (h : ∀ point ∈ points, point.step ≤ n) (hk : n ≤ k) : valueAt points k = valueAt points n := by
  cases points with
  | nil => rfl
  | cons newest older =>
    have hle := h newest List.mem_cons_self
    rw [valueAt_cons_of_le hle, valueAt_cons_of_le (Nat.le_trans hle hk)]

/-! ## Following a value -/

/-- Points that tell the values of a cell at the steps up to `n`. -/
structure Follows (points : List Point) (n : Nat) (value : Nat → Option Float) : Prop where
  descending : Descending points
  le : ∀ point ∈ points, point.step ≤ n
  first : ∃ point ∈ points, point.step = 0
  valueAt_eq : ∀ k ≤ n, value k = some (valueAt points k)

namespace Follows

variable {points : List Point} {n : Nat} {value : Nat → Option Float}

theorem start {now : Float} (hnow : value 0 = some now) : Follows [⟨0, now⟩] 0 value := by
  refine ⟨List.pairwise_singleton _ _, ?_, ⟨_, List.mem_cons_self, rfl⟩, ?_⟩
  · intro point hpoint
    cases List.mem_singleton.1 hpoint
    exact Nat.le_refl 0
  · intro k hk
    cases Nat.le_zero.1 hk
    exact hnow

/-- A value that stays need not be noted. -/
theorem stay (h : Follows points n value) (hvalue : value (n + 1) = value n) :
    Follows points (n + 1) value := by
  refine ⟨h.descending, fun point hpoint => Nat.le_succ_of_le (h.le point hpoint), h.first, ?_⟩
  intro k hk
  rcases Nat.le_succ_iff.1 hk with hk | rfl
  · exact h.valueAt_eq k hk
  · rw [valueAt_of_forall_le h.le (Nat.le_succ n), hvalue]
    exact h.valueAt_eq n (Nat.le_refl n)

/-- A value may change if it is noted, and may be noted again at the last step. -/
theorem note (h : Follows points n value) {step : Nat} (hle : n ≤ step) (hstep : step ≤ n + 1)
    {now : Float} (hnow : value step = some now) :
    Follows (push step now points) step value := by
  have hbound : ∀ point ∈ points, point.step ≤ step :=
    fun point hpoint => Nat.le_trans (h.le point hpoint) hle
  obtain ⟨first, hmem, hfirst⟩ := h.first
  refine ⟨h.descending.push hbound _, ?_, ?_, ?_⟩
  · intro point hpoint
    rcases mem_push hpoint with rfl | hpoint
    · exact Nat.le_refl step
    · exact hbound point hpoint
  · cases step with
    | zero => exact ⟨_, mk_mem_push 0 _ points, rfl⟩
    | succ step => exact ⟨first, mem_push_of_ne hmem (by omega), hfirst⟩
  · intro k hk
    rcases Nat.lt_or_eq_of_le hk with hlt | rfl
    · rw [valueAt_push_of_lt hlt _ ⟨first, hmem, by omega⟩]
      exact h.valueAt_eq k (by omega)
    · rw [valueAt_push_of_le (Nat.le_refl k)]
      exact hnow

theorem ne_nil (h : Follows points n value) : points ≠ [] := by
  obtain ⟨point, hpoint, -⟩ := h.first
  exact List.ne_nil_of_mem hpoint

theorem getElem?_series (h : Follows points n value) {k : Nat} (hk : k ≤ n) :
    (series points (n + 1))[k]? = value k := by
  rw [Point.getElem?_series h.descending (Nat.lt_succ_of_le hk), h.valueAt_eq k hk]

end Follows

end Point

end Conditioning
