import Conditioning.Decimal.Shortest
import Conditioning.Proofs.Double.Rounding

/-!
# The shortest decimal reads back

The comparisons of quarters with grid points are comparisons of rational numbers,
and a grid point that reads back is rounded to the double
(`roundsTo_of_readsBack`).  A grid whose step is at most a quarter of the last bit
has a point inside the interval; the last grids that are tried are that fine, so
the search ends at a point that reads back (`readsBack_shortest`).
-/

namespace Conditioning

namespace Double

open Decimal (Tie stepRatio lowerQuarters upperQuarters readsBack gridFloor nearer onGrid
  searchGrids powerAbove shortest)

variable {m : Nat} {q : Int}

/-! ## Grids -/

theorem stepRatio_pos (q p : Int) : 0 < (stepRatio q p).1 ∧ 0 < (stepRatio q p).2 :=
  ⟨Nat.mul_pos (Nat.two_pow_pos _) (Nat.pow_pos (by decide)),
    Nat.mul_pos (Nat.two_pow_pos _) (Nat.pow_pos (by decide))⟩

/-- The numbers of a ratio are in the ratio of the powers. -/
theorem stepRatio_mul (q p : Int) :
    ((stepRatio q p).1 : ℚ) * 10 ^ p = (stepRatio q p).2 * 2 ^ q := by
  have htwo := zpow_mul_pow_toNat (two_ne_zero (α := ℚ)) q
  have hten := zpow_mul_pow_toNat (show (10 : ℚ) ≠ 0 by norm_num) p
  simp only [stepRatio, Nat.pow_eq]
  push_cast
  rw [← htwo, ← hten]
  ring

/-- Grid points and multiples of the power of two have a common measure. -/
theorem exists_scale (q p : Int) :
    ∃ scale : ℚ, 0 < scale ∧ ((stepRatio q p).1 : ℚ) = 2 ^ q * scale ∧
      ((stepRatio q p).2 : ℚ) = 10 ^ p * scale := by
  have hden : (0 : ℚ) < (stepRatio q p).2 := by exact_mod_cast (stepRatio_pos q p).2
  have hten : (0 : ℚ) < 10 ^ p := by positivity
  refine ⟨(stepRatio q p).2 / 10 ^ p, by positivity, ?_, ?_⟩
  · rw [mul_div_assoc', eq_div_iff hten.ne', stepRatio_mul, mul_comm]
  · rw [mul_div_cancel₀ _ hten.ne']

theorem mul_le_point_iff (n d : Nat) (q p : Int) :
    n * (stepRatio q p).1 ≤ d * (stepRatio q p).2 ↔ (n : ℚ) * 2 ^ q ≤ d * 10 ^ p := by
  obtain ⟨scale, hpos, hnum, hden⟩ := exists_scale q p
  rw [← Nat.cast_le (α := ℚ), Nat.cast_mul, Nat.cast_mul, hnum, hden, ← mul_assoc, ← mul_assoc,
    mul_le_mul_iff_left₀ hpos]

theorem point_le_mul_iff (n d : Nat) (q p : Int) :
    d * (stepRatio q p).2 ≤ n * (stepRatio q p).1 ↔ (d : ℚ) * 10 ^ p ≤ n * 2 ^ q := by
  obtain ⟨scale, hpos, hnum, hden⟩ := exists_scale q p
  rw [← Nat.cast_le (α := ℚ), Nat.cast_mul, Nat.cast_mul, hnum, hden, ← mul_assoc, ← mul_assoc,
    mul_le_mul_iff_left₀ hpos]

theorem two_zpow_sub_two (q : Int) : (2 : ℚ) ^ (q - 2) = 2 ^ q / 4 := by
  rw [zpow_sub₀ two_ne_zero]
  norm_num

/-- A grid point that reads back is rounded to the double. -/
theorem roundsTo_of_readsBack {p : Int} {d : Nat} (hpos : 0 < m) (h : readsBack m q p d = true) :
    RoundsTo (d * 10 ^ p) m q := by
  have hupper : (upperQuarters m : ℚ) * 2 ^ (q - 2) = (m + 1 / 2) * 2 ^ q := by
    rw [two_zpow_sub_two, upperQuarters]
    push_cast
    ring
  have hhalf : ((4 * m - 2 : Nat) : ℚ) * 2 ^ (q - 2) = (m - 1 / 2) * 2 ^ q := by
    rw [two_zpow_sub_two, Nat.cast_sub (by omega)]
    push_cast
    ring
  have hquarter : ((4 * m - 1 : Nat) : ℚ) * 2 ^ (q - 2) = (m - 1 / 4) * 2 ^ q := by
    rw [two_zpow_sub_two, Nat.cast_sub (by omega)]
    push_cast
    ring
  have hlow : 4 * m - 2 ≤ lowerQuarters m q := by
    rw [lowerQuarters]
    split <;> omega
  have hlower : ((m : ℚ) - 1 / 2) * 2 ^ q ≤ lowerQuarters m q * 2 ^ (q - 2) := by
    rw [← hhalf]
    gcongr
  rw [readsBack] at h
  split at h
  next heven =>
    simp only [Bool.and_eq_true, decide_eq_true_eq] at h
    rw [mul_le_point_iff, point_le_mul_iff, hupper] at h
    refine ⟨hlower.trans h.1, h.2, fun hodd => by omega, ?_⟩
    rintro rfl hq
    rw [lowerQuarters, if_pos ⟨rfl, hq⟩, hquarter] at h
    exact h.1
  next hodd =>
    simp only [Bool.and_eq_true, decide_eq_true_eq] at h
    rw [← Nat.not_le, ← Nat.not_le, mul_le_point_iff, point_le_mul_iff, hupper, not_le, not_le] at h
    have hstrict := lt_of_le_of_lt hlower h.1
    exact ⟨hstrict.le, h.2.le, fun _ => ⟨hstrict, h.2⟩, fun heq => by omega⟩

/-! ## The search -/

section

variable {p : Int} {d : Nat} {tie : Tie}

theorem nearer_eq (tie : Tie) (m : Nat) (q p : Int) :
    nearer tie m q p = gridFloor m q p ∨ nearer tie m q p = gridFloor m q p + 1 := by
  simp only [nearer]
  repeat' split
  all_goals simp

theorem readsBack_of_onGrid (h : onGrid tie m q p = some d) : readsBack m q p d = true := by
  simp only [onGrid] at h
  split at h
  next hfloor hnext =>
    cases h
    rcases nearer_eq tie m q p with heq | heq <;> rw [heq] <;> assumption
  next hfloor hnext => cases h; exact hfloor
  next hfloor hnext => cases h; exact hnext
  next => cases h

theorem exists_onGrid (tie : Tie) (h : readsBack m q p (gridFloor m q p) = true) :
    ∃ d, onGrid tie m q p = some d := by
  simp only [onGrid, h]
  cases readsBack m q p (gridFloor m q p + 1) <;> exact ⟨_, rfl⟩

/-- A search that comes to a grid with a point inside ends at a point inside. -/
theorem readsBack_searchGrids {n k : Nat} (hk : k < n)
    (h : readsBack m q (p - k) (gridFloor m q (p - k)) = true) :
    readsBack m q (searchGrids tie m q n p).exponent (searchGrids tie m q n p).digits = true := by
  induction n generalizing p k with
  | zero => omega
  | succ n ih =>
    rw [searchGrids]
    split
    next d hd => exact readsBack_of_onGrid hd
    next hnone =>
      cases k with
      | zero =>
        obtain ⟨d, hd⟩ := exists_onGrid tie (by simpa using h)
        rw [hd] at hnone
        cases hnone
      | succ k =>
        refine ih (k := k) (by omega) ?_
        have hp : p - 1 - (k : Int) = p - ((k + 1 : Nat) : Int) := by omega
        rwa [hp]

/-- A multiple of a step that is not above a quarter is less than a quarter below. -/
theorem floor_between {low a b : Nat} (hpos : 0 < m) (hb : 0 < b) (hstep : b ≤ a)
    (hlow : low ≤ 4 * m - 1) :
    low * a < 4 * m * a / b * b ∧ 4 * m * a / b * b < (4 * m + 2) * a := by
  have hfloor : 4 * m * a / b * b ≤ 4 * m * a := Nat.div_mul_le_self _ _
  have hnext : 4 * m * a < 4 * m * a / b * b + b := Nat.lt_div_mul_add hb
  have hle : low * a + a ≤ 4 * m * a := by
    calc low * a + a ≤ (4 * m - 1) * a + a := Nat.add_le_add_right (Nat.mul_le_mul_right a hlow) a
      _ = (4 * m - 1 + 1) * a := (Nat.succ_mul _ _).symm
      _ = 4 * m * a := by rw [Nat.sub_add_cancel (by omega)]
  rw [Nat.add_mul]
  omega

/-- The point below the double reads back if the grid is fine. -/
theorem readsBack_gridFloor (hpos : 0 < m) (hfine : (10 : ℚ) ^ p ≤ 2 ^ (q - 2)) :
    readsBack m q p (gridFloor m q p) = true := by
  have hden := (stepRatio_pos (q - 2) p).2
  have hstep : (stepRatio (q - 2) p).2 ≤ (stepRatio (q - 2) p).1 := by
    have h := (point_le_mul_iff 1 1 (q - 2) p).2 (by simpa using hfine)
    simpa using h
  have hlow : lowerQuarters m q ≤ 4 * m - 1 := by
    rw [lowerQuarters]
    split <;> omega
  obtain ⟨hbelow, habove⟩ := floor_between hpos hden hstep hlow
  simp only [readsBack, gridFloor, upperQuarters]
  split
  · exact Bool.and_eq_true_iff.2 ⟨decide_eq_true hbelow.le, decide_eq_true habove.le⟩
  · exact Bool.and_eq_true_iff.2 ⟨decide_eq_true hbelow, decide_eq_true habove⟩

end

/-! ## The grids that are tried -/

/-- The last grid that is tried is fine. -/
theorem last_grid_fine (hm : Canonical m q) (hpos : 0 < m) :
    (10 : ℚ) ^ (powerAbove m q - (20 : Nat)) ≤ 2 ^ (q - 2) := by
  have hlog : m.log2 < 53 := (Nat.log2_lt (Nat.ne_of_gt hpos)).2 hm.lt
  have hleast := hm.least
  have hgreatest := hm.greatest
  have hdef : powerAbove m q = ((m.log2 + 1 + q) * 30103) / 100000 + 2 := by
    rw [powerAbove, Int.fdiv_eq_ediv_of_nonneg _ (by decide)]
  rcases Int.le_total 0 (powerAbove m q - (20 : Nat)) with h | h
  · have hpower : (10 : ℚ) ^ 59 ≤ 2 ^ 196 := by norm_num
    exact ten_zpow_le_of_nonneg (by decide) hpower h (by omega)
  · have hpower : (2 : ℚ) ^ 93 ≤ 10 ^ 28 := by norm_num
    exact ten_zpow_le_of_nonpos (by decide) hpower h (by omega)

/-- The shortest decimal of a double reads back. -/
theorem readsBack_shortest (hm : Canonical m q) (hpos : 0 < m) (tie : Tie) :
    readsBack m q (shortest tie m q).exponent (shortest tie m q).digits = true := by
  rw [shortest, if_neg (Nat.ne_of_gt hpos)]
  exact readsBack_searchGrids (k := 20) (by decide)
    (readsBack_gridFloor hpos (last_grid_fine hm hpos))

end Double

end Conditioning
