import Conditioning.Proofs.Mechanism.WellFormed
import Conditioning.Proofs.Scalar.Exact
import Mathlib.Algebra.Order.BigOperators.Group.List
import Mathlib.Algebra.Order.Field.Rat
import Mathlib.Tactic.Linarith

/-!
# Choosing in proportion to weights

A weighted choice looks for the first place where the running sum of the weights passes
the draw's share of the whole sum.  In exact numbers, and with weights that are not
negative, there is exactly one place whose weight takes the running sum past that share
(`Choice.passing_eq_some_iff`), and there is such a place for every draw below one
(`Choice.isSome_passing`).  So the choice is the inverse of the distribution function, it
never has to fall back, and it takes no place whose weight is zero
(`Choice.weighted_inverts`).

With doubles the running sum may fall short of the whole.  The choice is a place in the
list all the same (`Choice.weighted_lt`).
-/

namespace Conditioning

namespace Choice

variable {K : Type} [Field K] [LinearOrder K] {exp : K → K}

/-- The sum of the first weights, as many as are asked for. -/
def runningSum (weights : List (Exact exp)) (n : Nat) : K :=
  ((weights.take n).map Exact.val).sum

omit [LinearOrder K] in
@[simp] theorem runningSum_zero (weights : List (Exact exp)) : runningSum weights 0 = 0 := by
  simp [runningSum]

omit [LinearOrder K] in
@[simp] theorem runningSum_cons_succ (w : Exact exp) (weights : List (Exact exp)) (n : Nat) :
    runningSum (w :: weights) (n + 1) = w.val + runningSum weights n := by
  simp [runningSum]

omit [LinearOrder K] in
theorem runningSum_succ {weights : List (Exact exp)} {i : Nat} {w : Exact exp}
    (h : weights[i]? = some w) : runningSum weights (i + 1) = runningSum weights i + w.val := by
  rw [runningSum, runningSum, List.take_add_one, h, List.map_append, List.sum_append]
  simp

omit [LinearOrder K] in
theorem runningSum_length (weights : List (Exact exp)) :
    runningSum weights weights.length = (weights.map Exact.val).sum := by
  rw [runningSum, List.take_length]

theorem lt_iff (x y : Exact exp) : Scalar.lt x y = true ↔ x.val < y.val :=
  decide_eq_true_iff

/-- The running sum passes everything below the whole sum. -/
theorem isSome_passing {weights : List (Exact exp)} {q acc : Exact exp}
    (hlt : q.val < acc.val + runningSum weights weights.length) (hacc : acc.val ≤ q.val) :
    (passing q acc weights).isSome = true := by
  induction weights generalizing acc with
  | nil =>
    rw [List.length_nil, runningSum_zero, add_zero] at hlt
    exact absurd hlt (not_lt.2 hacc)
  | cons w weights ih =>
    rw [passing]
    split
    next => rfl
    next hnot =>
      have hle : (acc + w).val ≤ q.val := not_lt.1 fun h => hnot ((lt_iff _ _).2 h)
      rw [Option.isSome_map]
      refine ih ?_ hle
      rwa [List.length_cons, runningSum_cons_succ, ← add_assoc] at hlt

section

variable [IsStrictOrderedRing K] {weights : List (Exact exp)}

theorem runningSum_nonneg (h : ∀ w ∈ weights, 0 ≤ w.val) (n : Nat) : 0 ≤ runningSum weights n := by
  refine List.sum_nonneg fun x hx => ?_
  obtain ⟨w, hw, rfl⟩ := List.mem_map.1 hx
  exact h w (List.mem_of_mem_take hw)

/-- The running sum, begun at `acc`, passes `q` with one weight only. -/
theorem passing_eq_some_iff (h : ∀ w ∈ weights, 0 ≤ w.val) {q acc : Exact exp}
    (hacc : acc.val ≤ q.val) {i : Nat} :
    passing q acc weights = some i ↔ i < weights.length ∧
      acc.val + runningSum weights i ≤ q.val ∧ q.val < acc.val + runningSum weights (i + 1) := by
  induction weights generalizing acc i with
  | nil => simp [passing]
  | cons w weights ih =>
    obtain ⟨-, hweights⟩ := List.forall_mem_cons.1 h
    rw [passing]
    split
    next hpasses =>
      have hpasses : q.val < acc.val + w.val := (lt_iff _ _).1 hpasses
      cases i with
      | zero => simp [hacc, hpasses]
      | succ i =>
        -- the sum has passed with the first weight, and does not come back
        have hnonneg := runningSum_nonneg hweights i
        simp only [Option.some.injEq, runningSum_cons_succ]
        constructor
        · intro hzero
          cases hzero
        · rintro ⟨-, hle, -⟩
          linarith
    next hnot =>
      have hle : (acc + w).val ≤ q.val := not_lt.1 fun hlt => hnot ((lt_iff _ _).2 hlt)
      cases i with
      | zero =>
        simp only [Option.map_eq_some_iff, runningSum_cons_succ, runningSum_zero, add_zero]
        constructor
        · rintro ⟨j, -, hj⟩
          cases hj
        · rintro ⟨-, -, hlt⟩
          exact absurd hlt (not_lt.2 hle)
      | succ i =>
        have hsum (n : Nat) : (acc + w).val + runningSum weights n =
            acc.val + runningSum (w :: weights) (n + 1) := by
          rw [Exact.val_add, runningSum_cons_succ, add_assoc]
        rw [Option.map_eq_some_iff, ← hsum, ← hsum, List.length_cons, Nat.add_lt_add_iff_right,
          ← ih hweights hle]
        simp

/-- A weighted choice is a place in its list.  In exact numbers it is the place where the draw's
share of the whole sum lies between the running sums before and after the weight; that place is
found before the list ends, and its weight is positive. -/
theorem weighted_inverts :
    (∀ weights : List Float, weights ≠ [] → ∀ g : Generator,
      (g.chooseWeighted weights).1 < weights.length) ∧
    ∀ weights : List (Exact exp), (∀ w ∈ weights, 0 ≤ w.val) → (∃ w ∈ weights, 0 < w.val) →
      ∀ r : Exact exp, 0 ≤ r.val → r.val < 1 →
        let share := r.val * (weights.map Exact.val).sum
        (∀ i, weighted weights r = i ↔ i < weights.length ∧ runningSum weights i ≤ share ∧
          share < runningSum weights (i + 1)) ∧
        passing (r * Scalar.sum weights) Scalar.zero weights = some (weighted weights r) ∧
        ∃ w, weights[weighted weights r]? = some w ∧ 0 < w.val := by
  refine ⟨fun weights hne g => weighted_lt hne _, ?_⟩
  intro weights hnonneg hpositive r hr hone share
  have hshare : (r * Scalar.sum weights).val = share := by
    rw [Exact.val_mul, Exact.val_sum]
  have htotal : 0 < (weights.map Exact.val).sum := by
    obtain ⟨w, hw, hpos⟩ := hpositive
    have hle := List.single_le_sum (l := weights.map Exact.val)
      (fun x hx => by obtain ⟨w, hw, rfl⟩ := List.mem_map.1 hx; exact hnonneg w hw)
      w.val (List.mem_map_of_mem hw)
    exact lt_of_lt_of_le hpos hle
  have hstart : (Scalar.zero : Exact exp).val ≤ (r * Scalar.sum weights).val := by
    rw [hshare]
    exact mul_nonneg hr htotal.le
  have hbelow : (r * Scalar.sum weights).val <
      (Scalar.zero : Exact exp).val + runningSum weights weights.length := by
    rw [hshare, Exact.val_zero, zero_add, runningSum_length]
    exact mul_lt_of_lt_one_left htotal hone
  obtain ⟨chosen, hchosen⟩ := Option.isSome_iff_exists.1 (isSome_passing hbelow hstart)
  have hweighted : weighted weights r = chosen := by rw [weighted, hchosen]; rfl
  have hplace (i : Nat) : weighted weights r = i ↔ i < weights.length ∧
      runningSum weights i ≤ share ∧ share < runningSum weights (i + 1) := by
    have hiff := passing_eq_some_iff hnonneg hstart (i := i)
    rw [hchosen, hshare, Exact.val_zero, zero_add, zero_add, Option.some.injEq] at hiff
    rw [hweighted, hiff]
  refine ⟨hplace, by rw [hchosen, hweighted], ?_⟩
  obtain ⟨hlt, hle, hpasses⟩ := (hplace _).1 rfl
  have hfound := List.getElem?_eq_getElem hlt
  refine ⟨_, hfound, ?_⟩
  rw [runningSum_succ hfound] at hpasses
  linarith

/-- A quarter of four is one, which the first positive weight reaches and the second passes. -/
theorem weighted_inverts_quarter :
    let weights : List (Exact (id : ℚ → ℚ)) := [⟨0⟩, ⟨1⟩, ⟨0⟩, ⟨3⟩, ⟨0⟩]
    weighted weights ⟨1 / 4⟩ = 3 ∧
      passing (⟨1 / 4⟩ * Scalar.sum weights) Scalar.zero weights = some 3 ∧
      (∃ w, weights[3]? = some w ∧ 0 < w.val) ∧
      ∀ g : Generator, (g.chooseWeighted [0.0 / 0.0, -1.0]).1 < 2 := by
  intro weights
  have hnonneg : ∀ w ∈ weights, 0 ≤ w.val := by simp [weights]
  have hpositive : ∃ w ∈ weights, 0 < w.val := ⟨⟨1⟩, by simp [weights], by norm_num⟩
  obtain ⟨hdoubles, hexact⟩ := @weighted_inverts ℚ _ _ id _
  obtain ⟨hplace, hpassing, hpos⟩ :=
    hexact weights hnonneg hpositive ⟨1 / 4⟩ (by norm_num) (by norm_num)
  have hthree : weighted weights ⟨1 / 4⟩ = 3 := by
    rw [hplace]
    norm_num [runningSum, weights]
  rw [hthree] at hpassing hpos
  exact ⟨hthree, hpassing, hpos, hdoubles _ (by simp)⟩

end

end Choice

end Conditioning
