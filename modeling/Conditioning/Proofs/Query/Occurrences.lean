import Conditioning.Query.Counting
import Mathlib.Data.List.Count

/-!
# Occurrences

The counts of a pattern are made in one pass over the tokens, which sums up the
hits of a stimulus and of the response to it.  Here is what they count: the
places from which on the items of the pattern meet the tokens, each at the step of
its first token (`getD_stepCounts`).  A place may be the first one after the last
token, but no step of the record belongs to it.
-/

namespace Conditioning

variable {exact : Bool} {items : List Item}

/-- The places of a row of tokens from which on items meet it. -/
def occurrences (exact : Bool) (items : List Item) (row : List Token) : List Nat :=
  (List.range (row.length + 1)).filter fun place => meetsFront exact items (row.drop place)

/-- The step of a place: each step after the start has two tokens. -/
def stepOf (place : Nat) : Nat := place / 2 + 1

/-- The steps at which items start to meet a row of tokens, one for each occurrence. -/
def occurrenceSteps (exact : Bool) (items : List Item) (row : List Token) : List Nat :=
  (occurrences exact items row).map stepOf

theorem occurrences_nil :
    occurrences exact items [] = if meetsFront exact items [] then [0] else [] := by
  rw [occurrences, List.length_nil, Nat.zero_add, List.range_one, List.filter_cons,
    List.filter_nil]
  rfl

theorem occurrences_cons (token : Token) (row : List Token) :
    occurrences exact items (token :: row) =
      (if meetsFront exact items (token :: row) then [0] else []) ++
        (occurrences exact items row).map (· + 1) := by
  rw [occurrences, List.length_cons, List.range_succ_eq_map, List.filter_cons, List.filter_map,
    List.drop_zero]
  split
  · rfl
  · rfl

theorem length_le_of_meetsFront {row : List Token} (h : meetsFront exact items row = true) :
    items.length ≤ row.length := by
  induction items generalizing row with
  | nil => exact Nat.zero_le _
  | cons item items ih =>
    cases row with
    | nil => cases h
    | cons token row =>
      rw [meetsFront, Bool.and_eq_true] at h
      exact Nat.succ_le_succ (ih h.2)

/-- Items are only met where there are as many tokens left. -/
theorem occurrences_eq_filter (row : List Token) :
    occurrences exact items row = (List.range (row.length + 1 - items.length)).filter fun place =>
      meetsFront exact items (row.drop place) := by
  have hsplit : List.range (row.length + 1) = List.range (row.length + 1 - items.length) ++
      List.range' (row.length + 1 - items.length) (min (row.length + 1) items.length) := by
    rw [List.range_eq_range', List.range_eq_range']
    refine List.range'_eq_append_iff.2 ⟨row.length + 1 - items.length, Nat.sub_le .., rfl, ?_⟩
    congr 1 <;> omega
  rw [occurrences, hsplit, List.filter_append, List.append_right_eq_self]
  refine List.filter_eq_nil_iff.2 fun place hplace hmeets => ?_
  have hle := length_le_of_meetsFront hmeets
  have hplace := List.mem_range'_1.1 hplace
  rw [List.length_drop] at hle
  omega

theorem length_tokens (entries : List HistoryEntry) :
    (tokens entries).length = 2 * entries.length := by
  induction entries with
  | nil => rfl
  | cons entry entries ih =>
    rw [tokens, List.length_cons, List.length_cons, ih, List.length_cons]
    omega

/-- Two tokens bring the occurrences that start with them, at the first step, and those of the rest
one step later. -/
theorem occurrenceSteps_cons_cons (first second : Token) (row : List Token) :
    occurrenceSteps exact items (first :: second :: row) =
      (if meetsFront exact items (first :: second :: row) then [1] else []) ++
        ((if meetsFront exact items (second :: row) then [1] else []) ++
          (occurrenceSteps exact items row).map (· + 1)) := by
  have hlater : stepOf ∘ (· + 1) ∘ (· + 1) = (· + 1) ∘ stepOf := by
    funext place
    show (place + 1 + 1) / 2 + 1 = place / 2 + 1 + 1
    omega
  rw [occurrenceSteps, occurrenceSteps, occurrences_cons, occurrences_cons]
  simp only [List.map_append, List.map_map, hlater]
  congr 1
  · split <;> rfl
  · congr 1
    split <;> rfl

theorem one_le_of_mem_occurrenceSteps {row : List Token} {step : Nat}
    (h : step ∈ occurrenceSteps exact items row) : 1 ≤ step := by
  obtain ⟨place, -, rfl⟩ := List.mem_map.1 h
  exact Nat.succ_pos _

/-! ## What is counted -/

/-- The sums of neighbouring hits are the numbers of occurrences at the steps after the start. -/
theorem getD_pairSums_hits (entries : List HistoryEntry) (j : Nat) :
    (pairSums (hits exact items (tokens entries))).getD j 0 =
      (occurrenceSteps exact items (tokens entries)).count (j + 1) := by
  induction entries generalizing j with
  | nil =>
    simp only [tokens, hits, pairSums, occurrenceSteps, occurrences_nil]
    cases j with
    | zero => split <;> rfl
    | succ j => split <;> simp [stepOf]
  | cons entry entries ih =>
    simp only [tokens, hits, pairSums, occurrenceSteps_cons_cons, List.count_append]
    cases j with
    | zero =>
      have hnone : ((occurrenceSteps exact items (tokens entries)).map (· + 1)).count 1 = 0 := by
        refine List.count_eq_zero.2 fun hmem => ?_
        obtain ⟨step, hstep, hone⟩ := List.mem_map.1 hmem
        have := one_le_of_mem_occurrenceSteps hstep
        omega
      rw [List.getD_cons_zero, hnone, Nat.add_zero]
      congr 1 <;> split <;> rfl
    | succ j =>
      have hfirst (p : Bool) : (if p then [1] else []).count (j + 1 + 1) = 0 := by
        split <;> simp
      rw [List.getD_cons_succ, ih, hfirst, hfirst, Nat.zero_add, Nat.zero_add,
        List.count_map_of_injective _ _ (fun _ _ h => Nat.succ.inj h)]

theorem size_stepCounts (record : Record) :
    (stepCounts exact items record).toArray.size = record.stepCount := by
  rw [List.size_toArray, stepCounts, length_resize]

/-- The count at a step of a record is the number of occurrences that start there. -/
theorem getD_stepCounts {record : Record} {k : Nat} (hk : k < record.stepCount) :
    (stepCounts exact items record).toArray.getD k 0 =
      (occurrenceSteps exact items (tokens record.history.toList)).count k := by
  have hresize (n : Nat) (counts : List Nat) (hn : k < n) :
      (resize n counts).getD k 0 = counts.getD k 0 := by
    simp only [resize, List.getD_eq_getElem?_getD, List.getElem?_take, if_pos hn,
      List.getElem?_append, List.getElem?_replicate]
    split
    next => rfl
    next hge =>
      rw [List.getElem?_eq_none (Nat.le_of_not_lt hge)]
      split <;> rfl
  rw [Array.getD_eq_getD_getElem?, List.getElem?_toArray, ← List.getD_eq_getElem?_getD, stepCounts,
    hresize _ _ hk]
  cases k with
  | zero =>
    rw [List.getD_cons_zero]
    refine (List.count_eq_zero.2 fun hmem => ?_).symm
    exact Nat.not_lt_zero 0 (one_le_of_mem_occurrenceSteps hmem)
  | succ j => rw [List.getD_cons_succ, getD_pairSums_hits]

end Conditioning
