import Conditioning.Proofs.Double.Packing
import Mathlib.Algebra.Order.Field.Power
import Mathlib.Algebra.Order.Field.Rat
import Mathlib.Tactic.Linarith
import Mathlib.Tactic.NormNum
import Mathlib.Tactic.Positivity
import Mathlib.Tactic.Ring

/-!
# Rounding to the nearest double

The arithmetic of doubles computes with significands that are cut off, and keeps
of the bits behind them a round bit and a sticky bit.  What is kept determines
the number up to what rounding can tell (`Holds`), also after further bits are
shifted out (`Holds.shiftRight`).

So every number that lies nearer to a double than to its neighbours is rounded
to that double, and so are the midpoints if its significand is even
(`roundWithAccuracy_of_roundsTo`).  The neighbour below a power of two is only
half as far away as the one above; a number below a power of two is at first
rounded with one bit more, and the bit is lost when the significand overflows.
-/

namespace Conditioning

namespace Double

open Float.Model (Format totalExponent)
open Float.Model.UnpackedFloat

/-! ## Canonical parts -/

/-- The parts of a finite double: a full significand, or a shorter one with the least power. -/
inductive Canonical : Nat → Int → Prop where
  | normal {m : Nat} {q : Int} (h : Normal m q) : Canonical m q
  | short {m : Nat} (h : m < 2 ^ 52) : Canonical m (-1074)

namespace Canonical

variable {m : Nat} {q : Int}

theorem lt (h : Canonical m q) : m < 2 ^ 53 := by
  cases h with
  | normal h => exact h.upper
  | short h => exact Nat.lt_trans h (by decide)

theorem least (h : Canonical m q) : -1074 ≤ q := by
  cases h with
  | normal h => exact h.least
  | short => exact Int.le_refl _

theorem greatest (h : Canonical m q) : q ≤ 971 := by
  cases h with
  | normal h => exact h.greatest
  | short => decide

theorem le_of_lt (h : Canonical m q) (hq : -1074 < q) : 2 ^ 52 ≤ m := by
  cases h with
  | normal h => exact h.lower
  | short => exact absurd hq (Int.lt_irrefl _)

/-- Canonical parts have the power that rounding aims at. -/
theorem shiftToTargetExponent_eq (h : Canonical m q) :
    shiftToTargetExponent Format.binary64 m q .exact =
      (ExtendedMantissa.ofMantissaAndAccuracy m .exact, q) := by
  cases h with
  | normal h => simpa using h.shiftToTargetExponent_eq 0
  | short h =>
    have hlog : m.log2 ≤ 51 := by
      by_cases hm : m = 0
      · rw [hm]
        decide
      · exact Nat.lt_succ_iff.1 ((Nat.log2_lt hm).2 h)
    have htarget : Format.binary64.targetExponent (totalExponent m (-1074)) = -1074 := by
      rw [targetExponent_binary64, totalExponent]
      omega
    rw [shiftToTargetExponent, htarget]
    rfl

end Canonical

/-! ## Round and sticky bits -/

/-- The number is that of the extended mantissa, as far as it tells. -/
def Holds (u : ℚ) (em : ExtendedMantissa) : Prop :=
  ∃ t : ℚ, u = em.mantissa + (if em.roundBit then 1 / 2 else 0) + t ∧ 0 ≤ t ∧ t < 1 / 2 ∧
    (t = 0 ↔ em.stickyBit = false)

namespace Holds

variable {u : ℚ} {em : ExtendedMantissa}

theorem exact (m : Nat) : Holds m (ExtendedMantissa.ofMantissaAndAccuracy m .exact) :=
  ⟨0, by simp [ExtendedMantissa.ofMantissaAndAccuracy], le_refl 0, by norm_num,
    by simp [ExtendedMantissa.ofMantissaAndAccuracy]⟩

/-- A whole number and a proper fraction. -/
theorem fraction (m : Nat) {num den : Nat} (h : num < den) :
    Holds (m + num / den)
      (ExtendedMantissa.ofMantissaAndAccuracy m (accuracyOfFraction num den)) := by
  have hden : (0 : ℚ) < den := by exact_mod_cast Nat.zero_lt_of_lt h
  rw [accuracyOfFraction]
  split
  next hnum =>
    rw [hnum, Nat.cast_zero, zero_div, add_zero]
    exact Holds.exact m
  next hnum =>
    have hpos : (0 : ℚ) < num := by exact_mod_cast Nat.pos_of_ne_zero hnum
    have hone : (num : ℚ) / den < 1 := by
      rw [div_lt_one hden]
      exact_mod_cast h
    rcases Nat.lt_trichotomy (2 * num) den with hlt | heq | hgt
    · have hhalf : (num : ℚ) / den < 1 / 2 := by
        rw [div_lt_div_iff₀ hden two_pos, one_mul, mul_comm]
        exact_mod_cast hlt
      rw [Nat.compare_eq_lt.2 hlt]
      exact ⟨num / den, by simp [ExtendedMantissa.ofMantissaAndAccuracy], by positivity, hhalf,
        by simp [ExtendedMantissa.ofMantissaAndAccuracy, hpos.ne', hden.ne']⟩
    · have hhalf : (num : ℚ) / den = 1 / 2 := by
        rw [div_eq_div_iff hden.ne' two_ne_zero, one_mul, mul_comm]
        exact_mod_cast heq
      rw [Nat.compare_eq_eq.2 heq]
      exact ⟨0, by simp [ExtendedMantissa.ofMantissaAndAccuracy, hhalf], le_refl 0, by norm_num,
        by simp [ExtendedMantissa.ofMantissaAndAccuracy]⟩
    · have hhalf : 1 / 2 < (num : ℚ) / den := by
        rw [div_lt_div_iff₀ two_pos hden, one_mul, mul_comm]
        exact_mod_cast hgt
      rw [Nat.compare_eq_gt.2 hgt]
      refine ⟨num / den - 1 / 2, ?_, by linarith, by linarith, ?_⟩
      · simp [ExtendedMantissa.ofMantissaAndAccuracy]
      · simp only [ExtendedMantissa.ofMantissaAndAccuracy]
        constructor
        · intro h
          linarith
        · intro h
          cases h

theorem floor_le (h : Holds u em) : (em.mantissa : ℚ) ≤ u := by
  obtain ⟨t, rfl, ht, -, -⟩ := h
  split <;> linarith

theorem lt_succ (h : Holds u em) : u < em.mantissa + 1 := by
  obtain ⟨t, rfl, -, ht, -⟩ := h
  split <;> linarith

theorem shiftRightOne (h : Holds u em) : Holds (u / 2) em.shiftRightOne := by
  obtain ⟨t, rfl, hnonneg, hhalf, hsticky⟩ := h
  obtain ⟨m, roundBit, stickyBit⟩ := em
  have hm : (m : ℚ) = 2 * (m / 2 : Nat) + (m % 2 : Nat) := by
    exact_mod_cast (Nat.div_add_mod m 2).symm
  refine ⟨(if roundBit then 1 / 4 else 0) + t / 2, ?_, ?_, ?_, ?_⟩
  · show ((m : ℚ) + (if roundBit then 1 / 2 else 0) + t) / 2 =
      ((m / 2 : Nat) : ℚ) + (if (m % 2 != 0) = true then 1 / 2 else 0) +
        ((if roundBit then 1 / 4 else 0) + t / 2)
    rw [hm]
    rcases Nat.mod_two_eq_zero_or_one m with hmod | hmod <;> simp only [hmod] <;> split <;>
      norm_num <;> ring
  · split <;> linarith
  · split <;> linarith
  · cases roundBit with
    | true =>
      simp only [ExtendedMantissa.shiftRightOne, if_true, Bool.true_or]
      constructor
      · intro h
        linarith
      · intro h
        cases h
    | false =>
      simp only [ExtendedMantissa.shiftRightOne, Bool.false_or]
      rw [if_neg Bool.false_ne_true, zero_add, div_eq_zero_iff, or_iff_left two_ne_zero]
      exact hsticky

/-- Shifting out bits halves the number as often. -/
theorem shiftRight (h : Holds u em) (k : Nat) : Holds (u / 2 ^ k) (em >>> k) := by
  induction k with
  | zero =>
    rw [pow_zero, div_one]
    exact h
  | succ k ih =>
    rw [pow_succ, ← div_div]
    exact ih.shiftRightOne

/-- The rounded mantissa is the whole number nearest to the number, the even one of two. -/
theorem roundedMantissa_eq (h : Holds u em) {m : Nat} (hlower : (m : ℚ) - 1 / 2 ≤ u)
    (hupper : u ≤ m + 1 / 2) (hodd : m % 2 = 1 → (m : ℚ) - 1 / 2 < u ∧ u < m + 1 / 2) :
    em.roundedMantissa = m := by
  obtain ⟨t, rfl, hnonneg, hhalf, hsticky⟩ := h
  obtain ⟨n, roundBit, stickyBit⟩ := em
  have hle {a b : Nat} (h : (a : ℚ) < b + 1) : a ≤ b := by
    have : a < b + 1 := by exact_mod_cast h
    omega
  cases roundBit with
  | false =>
    simp only [Bool.false_eq_true, if_false, add_zero] at hlower hupper
    have hge : m ≤ n := hle (by linarith)
    have hle : n ≤ m := hle (by linarith)
    cases stickyBit <;> exact Nat.le_antisymm hle hge
  | true =>
    simp only [if_true] at hlower hupper hodd
    cases stickyBit with
    | false =>
      obtain rfl : t = 0 := hsticky.2 rfl
      rw [add_zero] at hlower hupper hodd
      have hge : m ≤ n + 1 := hle (by push_cast; linarith)
      have hle : n ≤ m := hle (by linarith)
      show n + n % 2 = m
      rcases Nat.eq_or_lt_of_le hle with rfl | hlt
      · -- the number is a midpoint above an even whole number
        rcases Nat.mod_two_eq_zero_or_one n with hmod | hmod
        · omega
        · exact absurd (hodd hmod).2 (lt_irrefl _)
      · obtain rfl : m = n + 1 := by omega
        rcases Nat.mod_two_eq_zero_or_one n with hmod | hmod
        · have hstrict := (hodd (by omega)).1
          push_cast at hstrict
          linarith
        · omega
    | true =>
      have hpos : 0 < t := lt_of_le_of_ne hnonneg fun h => by cases hsticky.1 h.symm
      have hge : m ≤ n + 1 := hle (by push_cast; linarith)
      have hlt : n < m := by
        have : (n : ℚ) < m := by linarith
        exact_mod_cast this
      show n + 1 = m
      omega

end Holds

/-! ## Powers of two and of ten -/

/-- A number between two powers of two. -/
theorem lt_of_two_zpow_lt {a b : Int} (h : (2 : ℚ) ^ a < 2 ^ b) : a < b :=
  (zpow_lt_zpow_iff_right₀ one_lt_two).1 h

theorem zpow_mul_pow_toNat {a : ℚ} (ha : a ≠ 0) (n : Int) :
    a ^ n * a ^ (-n).toNat = a ^ n.toNat := by
  rw [← zpow_natCast, ← zpow_natCast, ← zpow_add₀ ha]
  congr 1
  omega

section

variable {a b : Nat} {p q : Int}

/-- Powers are compared by comparing greater powers of them. -/
theorem ten_zpow_le_of_pow_le (ha : 0 < a) (hpow : ((10 : ℚ) ^ a) ^ p ≤ (2 ^ b) ^ p)
    (h : b * p ≤ a * q) : (10 : ℚ) ^ p ≤ 2 ^ q := by
  have hpow' : ((10 : ℚ) ^ p) ^ a ≤ (2 ^ q) ^ a := by
    calc ((10 : ℚ) ^ p) ^ a = (10 ^ a) ^ p := by
          rw [← zpow_natCast, ← zpow_natCast, ← zpow_mul, ← zpow_mul, mul_comm]
      _ ≤ (2 ^ b) ^ p := hpow
      _ = 2 ^ (b * p) := by rw [← zpow_natCast, ← zpow_mul]
      _ ≤ 2 ^ (a * q) := zpow_le_zpow_right₀ one_le_two h
      _ = (2 ^ q) ^ a := by rw [mul_comm, zpow_mul, zpow_natCast]
  exact le_of_pow_le_pow_left₀ (Nat.ne_of_gt ha) (by positivity) hpow'

theorem ten_zpow_le_of_nonneg (ha : 0 < a) (hab : (10 : ℚ) ^ a ≤ 2 ^ b) (hp : 0 ≤ p)
    (h : b * p ≤ a * q) : (10 : ℚ) ^ p ≤ 2 ^ q :=
  ten_zpow_le_of_pow_le ha (zpow_le_zpow_left₀ hp (by positivity) hab) h

theorem ten_zpow_le_of_nonpos (ha : 0 < a) (hab : (2 : ℚ) ^ b ≤ 10 ^ a) (hp : p ≤ 0)
    (h : b * p ≤ a * q) : (10 : ℚ) ^ p ≤ 2 ^ q := by
  have hinv : ((2 : ℚ) ^ b) ^ (-p) ≤ (10 ^ a) ^ (-p) :=
    zpow_le_zpow_left₀ (by omega) (by positivity) hab
  rw [zpow_neg, zpow_neg] at hinv
  exact ten_zpow_le_of_pow_le ha ((inv_le_inv₀ (by positivity) (by positivity)).1 hinv) h

end

/-! ## Rounding -/

/-- The number is nearer to the double than to its neighbours, or a midpoint that is rounded to
it. -/
structure RoundsTo (v : ℚ) (m : Nat) (q : Int) : Prop where
  lower : ((m : ℚ) - 1 / 2) * 2 ^ q ≤ v
  upper : v ≤ ((m : ℚ) + 1 / 2) * 2 ^ q
  odd : m % 2 = 1 → ((m : ℚ) - 1 / 2) * 2 ^ q < v ∧ v < ((m : ℚ) + 1 / 2) * 2 ^ q
  boundary : m = 2 ^ 52 → -1074 < q → ((m : ℚ) - 1 / 4) * 2 ^ q ≤ v

section

variable {v : ℚ} {m M : Nat} {q E : Int} {accuracy : Accuracy} {em : ExtendedMantissa}

namespace RoundsTo

theorem lt_two_zpow (h : RoundsTo v m q) (hm : Canonical m q) : v < 2 ^ (q + 53) := by
  have hm' : (m : ℚ) + 1 / 2 < 2 ^ 53 := by
    have : (m : ℚ) + 1 ≤ 2 ^ 53 := by exact_mod_cast hm.lt
    linarith
  have hq : (0 : ℚ) < 2 ^ q := by positivity
  calc v ≤ ((m : ℚ) + 1 / 2) * 2 ^ q := h.upper
    _ < 2 ^ 53 * 2 ^ q := by gcongr
    _ = 2 ^ (q + 53) := by rw [zpow_add₀ two_ne_zero, mul_comm]; norm_num

/-- Above a power of two nothing below the power is rounded to a double. -/
theorem two_zpow_lt (h : RoundsTo v m q) (hm : 2 ^ 52 < m) : 2 ^ (q + 52) < v := by
  have hm' : (2 : ℚ) ^ 52 + 1 ≤ m := by exact_mod_cast hm
  have hq : (0 : ℚ) < 2 ^ q := by positivity
  calc (2 : ℚ) ^ (q + 52) = 2 ^ 52 * 2 ^ q := by
        rw [zpow_add₀ two_ne_zero, mul_comm]
        norm_num
    _ < ((m : ℚ) - 1 / 2) * 2 ^ q := by
        gcongr
        linarith
    _ ≤ v := h.lower

/-- What is rounded to a power of two is more than half of it. -/
theorem half_le (h : RoundsTo v (2 ^ 52) q) (hq : -1074 < q) : 2 ^ (q + 51) ≤ v := by
  calc (2 : ℚ) ^ (q + 51) = 2 ^ 51 * 2 ^ q := by
        rw [zpow_add₀ two_ne_zero, mul_comm]
        norm_num
    _ ≤ (((2 ^ 52 : Nat) : ℚ) - 1 / 4) * 2 ^ q := by
        gcongr
        norm_num
    _ ≤ v := h.boundary rfl hq

end RoundsTo

theorem mantissa_ofMantissaAndAccuracy (M : Nat) (accuracy : Accuracy) :
    (ExtendedMantissa.ofMantissaAndAccuracy M accuracy).mantissa = M := by
  cases accuracy with
  | exact => rfl
  | inexact order => cases order <;> rfl

namespace Holds

theorem lt_two_zpow
    (h : Holds (v / 2 ^ E) (ExtendedMantissa.ofMantissaAndAccuracy M accuracy)) :
    v < 2 ^ (M.log2 + 1 + E) := by
  have hE : (0 : ℚ) < 2 ^ E := by positivity
  have hsucc := h.lt_succ
  rw [mantissa_ofMantissaAndAccuracy, div_lt_iff₀ hE] at hsucc
  have hlog : ((M : ℚ) + 1) ≤ 2 ^ (M.log2 + 1) := by exact_mod_cast Nat.lt_log2_self
  calc v < (M + 1) * 2 ^ E := hsucc
    _ ≤ 2 ^ (M.log2 + 1) * 2 ^ E := by gcongr
    _ = 2 ^ ((M.log2 : Int) + 1 + E) := by
        rw [zpow_add₀ two_ne_zero _ E]
        rfl

theorem two_zpow_le
    (h : Holds (v / 2 ^ E) (ExtendedMantissa.ofMantissaAndAccuracy M accuracy)) (hM : M ≠ 0) :
    2 ^ (M.log2 + E) ≤ v := by
  have hE : (0 : ℚ) < 2 ^ E := by positivity
  have hfloor := h.floor_le
  rw [mantissa_ofMantissaAndAccuracy, le_div_iff₀ hE] at hfloor
  have hlog : (2 : ℚ) ^ M.log2 ≤ M := by exact_mod_cast Nat.log2_self_le hM
  calc (2 : ℚ) ^ ((M.log2 : Int) + E) = 2 ^ M.log2 * 2 ^ E := by
        rw [zpow_add₀ two_ne_zero, zpow_natCast]
    _ ≤ M * 2 ^ E := by gcongr
    _ ≤ v := hfloor

/-- With the power of the double the mantissa is rounded to that of the double. -/
theorem roundedMantissa_of_roundsTo (h : Holds (v / 2 ^ q) em) (hv : RoundsTo v m q) :
    em.roundedMantissa = m := by
  have hq : (0 : ℚ) < 2 ^ q := by positivity
  refine h.roundedMantissa_eq ?_ ?_ fun hodd => ⟨?_, ?_⟩
  · rw [le_div_iff₀ hq]
    exact hv.lower
  · rw [div_le_iff₀ hq]
    exact hv.upper
  · rw [lt_div_iff₀ hq]
    exact (hv.odd hodd).1
  · rw [div_lt_iff₀ hq]
    exact (hv.odd hodd).2

/-- With one bit more the mantissa of a number below a power of two is rounded up to the power. -/
theorem roundedMantissa_of_below (h : Holds (v / 2 ^ (q - 1)) em) (hv : RoundsTo v (2 ^ 52) q)
    (hlt : -1074 < q) (hbelow : v < 2 ^ (q + 52)) : em.roundedMantissa = 2 ^ 53 := by
  have hq : (0 : ℚ) < 2 ^ (q - 1) := by positivity
  have hpow : (2 : ℚ) ^ q = 2 ^ (q - 1) * 2 := by
    rw [← zpow_add_one₀ two_ne_zero]
    congr 1
    omega
  refine h.roundedMantissa_eq ?_ ?_ fun hodd => absurd hodd (by decide)
  · rw [le_div_iff₀ hq]
    refine le_trans (le_of_eq ?_) (hv.boundary rfl hlt)
    rw [hpow]
    push_cast
    ring
  · rw [div_le_iff₀ hq]
    refine le_trans (le_of_lt hbelow) ?_
    rw [show q + 52 = q - 1 + 53 by omega, zpow_add₀ two_ne_zero, mul_comm]
    gcongr
    norm_num

end Holds

/-- The power that rounding aims at is that of the double, or one less below a power of two. -/
theorem target_eq (hm : Canonical m q) (hv : RoundsTo v m q)
    (hholds : Holds (v / 2 ^ E) (ExtendedMantissa.ofMantissaAndAccuracy M accuracy))
    (henough : E ≤ max (M.log2 + 1 + E - 53) (-1074)) :
    (max (M.log2 + 1 + E - 53) (-1074) = q) ∨
      (max (M.log2 + 1 + E - 53) (-1074) = q - 1 ∧ m = 2 ^ 52 ∧ -1074 < q) ∧
        v < 2 ^ (q + 52) := by
  generalize hT : max (M.log2 + 1 + E - 53) (-1074 : Int) = T at henough
  have hbelow : v < 2 ^ (T + 53) :=
    lt_of_lt_of_le hholds.lt_two_zpow (zpow_le_zpow_right₀ one_le_two (by omega))
  have hTq : T ≤ q := by
    by_cases hne : T = -1074
    · rw [hne]
      exact hm.least
    · have hM : M ≠ 0 := by
        rintro rfl
        rw [Nat.log2_zero] at hT
        omega
      have := lt_of_two_zpow_lt (lt_of_le_of_lt (hholds.two_zpow_le hM) (hv.lt_two_zpow hm))
      omega
  rcases Int.lt_or_eq_of_le hm.least with hlt | heq
  · rcases Nat.eq_or_lt_of_le (hm.le_of_lt hlt) with rfl | hmore
    · have := lt_of_two_zpow_lt (lt_of_le_of_lt (hv.half_le hlt) hbelow)
      rcases Int.lt_or_eq_of_le hTq with h | h
      · obtain rfl : T = q - 1 := by omega
        rw [show q - 1 + 53 = q + 52 by omega] at hbelow
        exact .inr ⟨⟨rfl, rfl, hlt⟩, hbelow⟩
      · exact .inl h
    · have := lt_of_two_zpow_lt (lt_trans (hv.two_zpow_lt hmore) hbelow)
      exact .inl (by omega)
  · exact .inl (by omega)

/-- Every number is rounded to the double that it is nearest to. -/
theorem roundWithAccuracy_of_roundsTo (hm : Canonical m q) (hpos : 0 < m) (hv : RoundsTo v m q)
    (hholds : Holds (v / 2 ^ E) (ExtendedMantissa.ofMantissaAndAccuracy M accuracy))
    (henough : E ≤ max (M.log2 + 1 + E - 53) (-1074)) (sign : Sign) :
    roundWithAccuracy Format.binary64 sign M E accuracy = .finite sign m q hpos := by
  have htarget := target_eq hm hv hholds henough
  have hfirst : shiftToTargetExponent Format.binary64 M E accuracy =
      (ExtendedMantissa.ofMantissaAndAccuracy M accuracy >>>
        (max (M.log2 + 1 + E - 53) (-1074) - E).toNat, max (M.log2 + 1 + E - 53) (-1074)) := by
    rw [shiftToTargetExponent, targetExponent_binary64, totalExponent, shiftToExponent]
    congr 1
    omega
  generalize hT : max (M.log2 + 1 + E - 53) (-1074 : Int) = T at henough htarget hfirst
  have hshifted : Holds (v / 2 ^ T)
      (ExtendedMantissa.ofMantissaAndAccuracy M accuracy >>> (T - E).toNat) := by
    have h := hholds.shiftRight (T - E).toNat
    have hpow : (2 : ℚ) ^ E * 2 ^ (T - E).toNat = 2 ^ T := by
      rw [← zpow_natCast, ← zpow_add₀ two_ne_zero]
      congr 1
      omega
    rwa [div_div, hpow] at h
  generalize ExtendedMantissa.ofMantissaAndAccuracy M accuracy >>> (T - E).toNat = em
    at hfirst hshifted
  -- the second shift only drops a zero bit, and only if the rounded mantissa overflowed
  have hsecond : shiftToTargetExponent Format.binary64 em.roundedMantissa T .exact =
      (ExtendedMantissa.ofMantissaAndAccuracy m .exact, q) := by
    rcases htarget with rfl | ⟨⟨rfl, rfl, hlt⟩, hbelow⟩
    · rw [hshifted.roundedMantissa_of_roundsTo hv, hm.shiftToTargetExponent_eq]
    · have hnormal : Normal (2 ^ 52) q :=
        ⟨Nat.le_refl _, by decide, hm.least, hm.greatest⟩
      rw [hshifted.roundedMantissa_of_below hv hlt hbelow]
      exact hnormal.shiftToTargetExponent_eq 1
  exact roundWithAccuracy_eq_finite hfirst hsecond rfl hpos

end

end Double

end Conditioning
