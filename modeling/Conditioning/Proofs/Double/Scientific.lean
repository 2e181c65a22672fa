import Conditioning.Decimal.Reading
import Conditioning.Proofs.Double.Parts
import Conditioning.Proofs.Random.Unit
import Mathlib.Tactic.FieldSimp

/-!
# Reading decimals

A product of two doubles and a quotient of two doubles are rounded to the double
nearest to them.  A decimal is read as a product with a power of ten or as a
quotient by one, either with the powers of ten that are doubles themselves or
with significands of any length.  In both ways it is read as the double that it
is nearest to (`nearestDouble_of_roundsTo`), as the sizes of such decimals are
within the limits of the reader.
-/

namespace Conditioning

namespace Double

open Float.Model (Format totalExponent)
open Float.Model.UnpackedFloat

variable {m : Nat} {q : Int}

/-! ## Products and quotients -/

theorem log2_ge {n : Nat} (h : 2 ^ 52 ≤ n) : 52 ≤ n.log2 :=
  (Nat.le_log2 (by omega)).2 h

theorem mul_of_roundsTo (hm : Canonical m q) (hpos : 0 < m) {m₁ m₂ : Nat} {e₁ e₂ : Int}
    (h₁ : 0 < m₁) (h₂ : 0 < m₂) (hfull : 2 ^ 52 ≤ m₁)
    (hv : RoundsTo ((m₁ * 2 ^ e₁) * (m₂ * 2 ^ e₂)) m q) :
    mul Format.binary64 (.finite .positive m₁ e₁ h₁) (.finite .positive m₂ e₂ h₂) =
      .finite .positive m q hpos := by
  have hexact : ((m₁ * 2 ^ e₁) * (m₂ * 2 ^ e₂) : ℚ) / 2 ^ (e₁ + e₂) = ((m₁ * m₂ : Nat) : ℚ) := by
    rw [zpow_add₀ two_ne_zero]
    push_cast
    field_simp
  have hholds : Holds (((m₁ * 2 ^ e₁) * (m₂ * 2 ^ e₂) : ℚ) / 2 ^ (e₁ + e₂))
      (ExtendedMantissa.ofMantissaAndAccuracy (m₁ * m₂) .exact) := by
    rw [hexact]
    exact .exact _
  have hlog : 52 ≤ (m₁ * m₂).log2 :=
    log2_ge (Nat.le_trans hfull (Nat.le_mul_of_pos_right m₁ h₂))
  exact roundWithAccuracy_of_roundsTo hm hpos hv hholds (by omega) .positive

/-- A quotient has enough bits to be rounded. -/
theorem le_targetExponent_div {m₁ m₂ shift : Nat} {e : Int} (h₁ : 0 < m₁) (h₂ : 0 < m₂)
    (hshift : -1074 < e → 53 + m₂.log2 ≤ m₁.log2 + shift) :
    e ≤ max ((m₁ * 2 ^ shift / m₂).log2 + 1 + e - 53) (-1074) := by
  by_cases he : -1074 < e
  · have hbits := hshift he
    have hlower : 2 ^ (m₁.log2 + shift) ≤ m₁ * 2 ^ shift := by
      rw [Nat.pow_add]
      exact Nat.mul_le_mul_right _ (Nat.log2_self_le (Nat.ne_of_gt h₁))
    have hquotient : 2 ^ 52 ≤ m₁ * 2 ^ shift / m₂ := by
      rw [Nat.le_div_iff_mul_le h₂]
      calc 2 ^ 52 * m₂ ≤ 2 ^ 52 * 2 ^ (m₂.log2 + 1) :=
            Nat.mul_le_mul_left _ (Nat.le_of_lt Nat.lt_log2_self)
        _ = 2 ^ (53 + m₂.log2) := by rw [← Nat.pow_add]; congr 1; omega
        _ ≤ 2 ^ (m₁.log2 + shift) := Nat.pow_le_pow_right two_pos hbits
        _ ≤ m₁ * 2 ^ shift := hlower
    have := log2_ge hquotient
    omega
  · omega

theorem div_of_roundsTo (hm : Canonical m q) (hpos : 0 < m) {m₁ m₂ : Nat} {e₁ e₂ : Int}
    (h₁ : 0 < m₁) (h₂ : 0 < m₂) (hv : RoundsTo ((m₁ * 2 ^ e₁) / (m₂ * 2 ^ e₂)) m q) :
    div Format.binary64 (.finite .positive m₁ e₁ h₁) (.finite .positive m₂ e₂ h₂) =
      .finite .positive m q hpos := by
  have htarget : Format.binary64.targetExponent (totalExponent m₁ e₁ - totalExponent m₂ e₂) =
      max (m₁.log2 + e₁ - (m₂.log2 + e₂) - 53) (-1074) := by
    rw [targetExponent_binary64, totalExponent, totalExponent]
    omega
  generalize hE : min (e₁ - e₂) (max (m₁.log2 + e₁ - (m₂.log2 + e₂) - 53) (-1074)) = E
  have hcore : divCore Format.binary64 m₁ e₁ m₂ e₂ =
      (m₁ * 2 ^ (e₁ - e₂ - E).toNat / m₂, E,
        accuracyOfFraction (m₁ * 2 ^ (e₁ - e₂ - E).toNat % m₂) m₂) := by
    simp only [divCore, htarget, hE, Nat.shiftLeft_eq]
  have hm₂ : (m₂ : ℚ) ≠ 0 := by exact_mod_cast Nat.ne_of_gt h₂
  have hexact : ((m₁ * 2 ^ e₁) / (m₂ * 2 ^ e₂) : ℚ) / 2 ^ E =
      ((m₁ * 2 ^ (e₁ - e₂ - E).toNat / m₂ : Nat) : ℚ) +
        ((m₁ * 2 ^ (e₁ - e₂ - E).toNat % m₂ : Nat) : ℚ) / m₂ := by
    have hpow : (2 : ℚ) ^ e₁ = 2 ^ (e₁ - e₂ - E).toNat * 2 ^ e₂ * 2 ^ E := by
      rw [← zpow_natCast, ← zpow_add₀ two_ne_zero, ← zpow_add₀ two_ne_zero]
      congr 1
      omega
    have hdivision : (m₁ : ℚ) * 2 ^ (e₁ - e₂ - E).toNat =
        m₂ * ((m₁ * 2 ^ (e₁ - e₂ - E).toNat / m₂ : Nat) : ℚ) +
          ((m₁ * 2 ^ (e₁ - e₂ - E).toNat % m₂ : Nat) : ℚ) := by
      exact_mod_cast (Nat.div_add_mod (m₁ * 2 ^ (e₁ - e₂ - E).toNat) m₂).symm
    have hsum : ((m₁ * 2 ^ (e₁ - e₂ - E).toNat / m₂ : Nat) : ℚ) +
        ((m₁ * 2 ^ (e₁ - e₂ - E).toNat % m₂ : Nat) : ℚ) / m₂ =
        (m₁ : ℚ) * 2 ^ (e₁ - e₂ - E).toNat / m₂ := by
      rw [hdivision]
      field_simp
    rw [hsum, hpow]
    field_simp
  have hholds : Holds (((m₁ * 2 ^ e₁) / (m₂ * 2 ^ e₂) : ℚ) / 2 ^ E)
      (ExtendedMantissa.ofMantissaAndAccuracy (m₁ * 2 ^ (e₁ - e₂ - E).toNat / m₂)
        (accuracyOfFraction (m₁ * 2 ^ (e₁ - e₂ - E).toNat % m₂) m₂)) := by
    rw [hexact]
    exact .fraction _ (Nat.mod_lt _ h₂)
  have henough : E ≤ max ((m₁ * 2 ^ (e₁ - e₂ - E).toNat / m₂).log2 + 1 + E - 53) (-1074) :=
    le_targetExponent_div h₁ h₂ (by omega)
  have hround := roundWithAccuracy_of_roundsTo hm hpos hv hholds henough .positive
  have hdiv : div Format.binary64 (.finite .positive m₁ e₁ h₁) (.finite .positive m₂ e₂ h₂) =
      roundWithAccuracy Format.binary64 .positive (divCore Format.binary64 m₁ e₁ m₂ e₂).1
        (divCore Format.binary64 m₁ e₁ m₂ e₂).2.1 (divCore Format.binary64 m₁ e₁ m₂ e₂).2.2 := rfl
  rw [hdiv, hcore]
  exact hround

/-! ## Powers of ten -/

/-- The powers of ten that are doubles. -/
theorem bits_powerOfTen : ∀ e : Fin 23,
    Float.exactlyRepresentablePowersOfTen[e.val].toBits.toNat =
        (pack Format.binary64 (unpacked false (10 ^ e.val * 2 ^ 52 / 2 ^ (10 ^ e.val).log2)
          ((10 ^ e.val).log2 - 52))).toNat ∧
      10 ^ e.val * 2 ^ 52 / 2 ^ (10 ^ e.val).log2 * 2 ^ (10 ^ e.val).log2 = 10 ^ e.val * 2 ^ 52 ∧
      2 ^ 52 ≤ 10 ^ e.val * 2 ^ 52 / 2 ^ (10 ^ e.val).log2 ∧
      10 ^ e.val * 2 ^ 52 / 2 ^ (10 ^ e.val).log2 < 2 ^ 53 ∧ (10 ^ e.val).log2 ≤ 73 := by
  decide +kernel

theorem exists_unpack_powerOfTen (e : Fin 23) :
    ∃ M : Nat, ∃ E : Int, ∃ h : 0 < M,
      Float.exactlyRepresentablePowersOfTen[e.val].toModel.unpack =
        .finite .positive M E h ∧ (M : ℚ) * 2 ^ E = 10 ^ e.val := by
  obtain ⟨hbits, hvalue, hlower, hupper, hlog⟩ := bits_powerOfTen e
  generalize 10 ^ e.val * 2 ^ 52 / 2 ^ (10 ^ e.val).log2 = M at hbits hvalue hlower hupper
  generalize (10 ^ e.val).log2 = L at hbits hvalue hlog
  have hnormal : Normal M (L - 52) := ⟨hlower, hupper, by omega, by omega⟩
  refine ⟨M, L - 52, hnormal.pos, ?_, ?_⟩
  · rw [eq_ofModel_of_toNat hbits]
    exact (unpack_ofParts (.normal hnormal) false).trans (unpacked_of_pos hnormal.pos false _)
  · have hvalue' : (M : ℚ) * 2 ^ L = 10 ^ e.val * 2 ^ 52 := by exact_mod_cast hvalue
    rw [zpow_sub₀ two_ne_zero, zpow_natCast, ← mul_div_assoc, hvalue']
    norm_num

/-! ## Sizes -/

theorem two_zpow_le_ten_zpow {s : Int} (hs : 0 ≤ s) : (2 : ℚ) ^ (3 * s) ≤ 10 ^ s := by
  rw [zpow_mul]
  exact zpow_le_zpow_left₀ hs (by norm_num) (by norm_num)

theorem ten_zpow_le_two_zpow {s : Int} (hs : s ≤ 0) : (10 : ℚ) ^ s ≤ 2 ^ (3 * s) := by
  have hpower : (2 : ℚ) ^ 3 ≤ 10 ^ 1 := by norm_num
  exact ten_zpow_le_of_nonpos one_pos hpower hs (by omega)

/-- What is rounded to a double that is not zero is neither too small nor too great. -/
theorem RoundsTo.bounds {v : ℚ} (h : RoundsTo v m q) (hm : Canonical m q) (hpos : 0 < m) :
    2 ^ (-1075 : Int) ≤ v ∧ v < 2 ^ (1024 : Int) := by
  have hq : (0 : ℚ) < 2 ^ q := by positivity
  constructor
  · have hone : (1 : ℚ) ≤ m := by exact_mod_cast hpos
    calc (2 : ℚ) ^ (-1075 : Int) = 1 / 2 * 2 ^ (-1074 : Int) := by
          rw [show (-1075 : Int) = -1 + -1074 by omega, zpow_add₀ two_ne_zero]
          norm_num
      _ ≤ (m - 1 / 2) * 2 ^ q :=
          mul_le_mul (by linarith) (zpow_le_zpow_right₀ one_le_two hm.least) (by positivity)
            (by linarith)
      _ ≤ v := h.lower
  · have hgreatest := hm.greatest
    exact lt_of_lt_of_le (h.lt_two_zpow hm) (zpow_le_zpow_right₀ one_le_two (by omega))

/-- The digits of a number reach up to its size. -/
theorem digits_bounds {n : Nat} (hpos : 0 < n) :
    10 ^ ((Decimal.digits n).length - 1) ≤ n ∧ n < 10 ^ (Decimal.digits n).length := by
  induction n using Nat.strongRecOn with
  | ind n ih =>
    rw [Decimal.digits]
    split
    next h => exact ⟨hpos, by simpa using h⟩
    next h =>
      obtain ⟨hlower, hupper⟩ := ih (n / 10) (by omega) (by omega)
      have hlength : 0 < (Decimal.digits (n / 10)).length :=
        List.length_pos_iff.2 (Decimal.digits_ne_nil _)
      obtain ⟨k, hk⟩ : ∃ k, (Decimal.digits (n / 10)).length = k + 1 :=
        ⟨_, (Nat.succ_pred_eq_of_pos hlength).symm⟩
      rw [List.length_append, List.length_singleton, hk]
      rw [hk, Nat.add_sub_cancel] at hlower
      rw [hk] at hupper
      rw [Nat.add_sub_cancel, Nat.pow_succ, Nat.pow_succ (n := 10) (m := k + 1)]
      omega

/-! ## Reading -/

section

variable {d : Nat} {p : Int}

theorem ofScientific_fast (hm : Canonical m q) (hpos : 0 < m) (hd : 0 < d) (hlt : d < 2 ^ 53)
    (hp : p.natAbs ≤ 22) (hv : RoundsTo (d * 10 ^ p) m q) :
    Float.ofScientific d (decide (p < 0)) p.natAbs = ofParts false m q := by
  have hword : d.toUInt64.toNat = d := Nat.mod_eq_of_lt (Nat.lt_trans hlt (by decide))
  obtain ⟨k, hnormal, -, hd'⟩ :=
    unpack_toFloat (n := d.toUInt64) (by rwa [hword]) (by rwa [hword])
  obtain ⟨M, E, hM, hpower, hvalue⟩ := exists_unpack_powerOfTen ⟨p.natAbs, by omega⟩
  dsimp only at hpower hvalue
  have hnumber : ((d.toUInt64.toNat * 2 ^ k : Nat) : ℚ) * 2 ^ (-k : Int) = d := by
    rw [hword, zpow_neg, zpow_natCast]
    push_cast
    field_simp
  rw [Float.ofScientific, dif_pos ⟨hlt, hp⟩]
  by_cases hneg : p < 0
  · have hten : (10 : ℚ) ^ p = (10 ^ p.natAbs)⁻¹ := by
      rw [← zpow_natCast, ← zpow_neg]
      congr 1
      omega
    have hv' : RoundsTo ((((d.toUInt64.toNat * 2 ^ k : Nat) : ℚ) * 2 ^ (-k : Int)) /
        (M * 2 ^ E)) m q := by
      rw [hnumber, hvalue]
      rwa [hten, ← div_eq_mul_inv] at hv
    rw [if_pos (decide_eq_true hneg), ofParts, unpacked_of_pos hpos]
    refine (congrArg₂ (fun a b => Float.ofModel (.pack (div Format.binary64 a b))) hd'
      hpower).trans ?_
    rw [div_of_roundsTo hm hpos hnormal.pos hM hv']
    rfl
  · have hten : (10 : ℚ) ^ p = 10 ^ p.natAbs := by
      rw [← zpow_natCast]
      congr 1
      omega
    have hv' : RoundsTo ((((d.toUInt64.toNat * 2 ^ k : Nat) : ℚ) * 2 ^ (-k : Int)) *
        (M * 2 ^ E)) m q := by
      rw [hnumber, hvalue]
      rwa [hten] at hv
    rw [if_neg (by simpa using hneg), ofParts, unpacked_of_pos hpos]
    refine (congrArg₂ (fun a b => Float.ofModel (.pack (mul Format.binary64 a b))) hd'
      hpower).trans ?_
    rw [mul_of_roundsTo hm hpos hnormal.pos hM hnormal.lower hv']
    rfl

/-- The power of ten is not so great that any number times it is infinite or zero. -/
theorem RoundsTo.exponent_bounds (h : RoundsTo (d * 10 ^ p) m q) (hm : Canonical m q)
    (hpos : 0 < m) (hd : 0 < d) : -((2048 : Int) + d.log2) ≤ p ∧ p ≤ 2048 := by
  obtain ⟨hsmall, hgreat⟩ := h.bounds hm hpos
  constructor
  · by_contra hp
    have hten : (10 : ℚ) ^ p ≤ 2 ^ (3 * p) := ten_zpow_le_two_zpow (by omega)
    have hlog : (d : ℚ) < 2 ^ ((d.log2 + 1 : Nat) : Int) := by
      rw [zpow_natCast]
      exact_mod_cast Nat.lt_log2_self
    have hlt : (d : ℚ) * 10 ^ p < 2 ^ (((d.log2 + 1 : Nat) : Int) + 3 * p) := by
      rw [zpow_add₀ two_ne_zero]
      exact mul_lt_mul hlog hten (by positivity) (by positivity)
    have := lt_of_two_zpow_lt (lt_of_le_of_lt hsmall hlt)
    omega
  · by_contra hp
    have hone : (1 : ℚ) ≤ d := by exact_mod_cast hd
    have hten : (2 : ℚ) ^ (3 * p) ≤ 10 ^ p := two_zpow_le_ten_zpow (by omega)
    have hle : (2 : ℚ) ^ (3 * p) ≤ d * 10 ^ p :=
      le_trans hten (le_mul_of_one_le_left (by positivity) hone)
    have := lt_of_two_zpow_lt (lt_of_le_of_lt hle hgreat)
    omega

theorem ofScientific_slow (hm : Canonical m q) (hpos : 0 < m) (hd : 0 < d)
    (hv : RoundsTo (d * 10 ^ p) m q) :
    Float.Model.UnpackedFloat.ofScientific Format.binary64 d p = .finite .positive m q hpos := by
  obtain ⟨hlower, hupper⟩ := hv.exponent_bounds hm hpos hd
  have hnotAbove : ¬p > 2 ^ Format.binary64.exponentBits := Int.not_lt.2 hupper
  have hnotBelow : ¬p < -((2 ^ Format.binary64.exponentBits : Int) + d.log2) :=
    Int.not_lt.2 hlower
  rw [Float.Model.UnpackedFloat.ofScientific, dif_neg (Nat.ne_of_gt hd), if_neg hnotAbove,
    if_neg hnotBelow]
  by_cases hnonneg : 0 ≤ p
  · rw [if_pos hnonneg]
    have hten : (10 : ℚ) ^ p = ((10 ^ p.toNat : Nat) : ℚ) := by
      push_cast
      rw [← zpow_natCast]
      congr 1
      omega
    refine mul_of_roundsTo hm hpos _ _ ?_ ?_
    · rw [Nat.shiftLeft_eq]
      exact Nat.le_trans (by decide) (Nat.le_mul_of_pos_left (2 ^ 53) hd)
    · rw [hten] at hv
      rw [Nat.shiftLeft_eq, zpow_zero, mul_one]
      have hshift : ((d * 2 ^ Format.binary64.mantissaBits : Nat) : ℚ) *
          2 ^ (-(Format.binary64.mantissaBits : Int)) = d := by
        rw [zpow_neg, zpow_natCast]
        push_cast
        field_simp
      rwa [hshift]
  · rw [if_neg hnonneg]
    have hten : (10 : ℚ) ^ p = ((10 ^ (-p).toNat : Nat) : ℚ)⁻¹ := by
      push_cast
      rw [← zpow_natCast, ← zpow_neg]
      congr 1
      omega
    refine div_of_roundsTo hm hpos _ _ ?_
    rw [hten, ← div_eq_mul_inv] at hv
    rwa [zpow_zero, mul_one, mul_one]

theorem RoundsTo.digits_pos (h : RoundsTo (d * 10 ^ p) m q) (hm : Canonical m q)
    (hpos : 0 < m) : 0 < d := by
  rcases Nat.eq_zero_or_pos d with rfl | hd
  · have hsmall := (h.bounds hm hpos).1
    rw [Nat.cast_zero, zero_mul] at hsmall
    exact absurd hsmall (not_le.2 (by positivity))
  · exact hd

/-- A decimal that is rounded to a double is within the limits of the reader. -/
theorem RoundsTo.size_bounds (h : RoundsTo (d * 10 ^ p) m q) (hm : Canonical m q)
    (hpos : 0 < m) : -Decimal.sizeLimit ≤ p + (Decimal.digits d).length ∧
      p + (Decimal.digits d).length ≤ Decimal.sizeLimit := by
  obtain ⟨hsmall, hgreat⟩ := h.bounds hm hpos
  obtain ⟨hlower, hupper⟩ := digits_bounds (h.digits_pos hm hpos)
  have hlength : 0 < (Decimal.digits d).length := List.length_pos_iff.2 (Decimal.digits_ne_nil d)
  have hlimit : Decimal.sizeLimit = 400 := rfl
  constructor
  · by_contra hsize
    have hd' : (d : ℚ) < 10 ^ ((Decimal.digits d).length : Int) := by
      rw [zpow_natCast]
      exact_mod_cast hupper
    have hlt : (d : ℚ) * 10 ^ p < 2 ^ (3 * (p + (Decimal.digits d).length)) := by
      refine lt_of_lt_of_le ?_ (ten_zpow_le_two_zpow (by omega))
      rw [add_comm p, zpow_add₀ (by norm_num)]
      gcongr
    have := lt_of_two_zpow_lt (lt_of_le_of_lt hsmall hlt)
    omega
  · by_contra hsize
    have hd' : (10 : ℚ) ^ (((Decimal.digits d).length - 1 : Nat) : Int) ≤ d := by
      rw [zpow_natCast]
      exact_mod_cast hlower
    have hle : (2 : ℚ) ^ (3 * (p + (Decimal.digits d).length - 1)) ≤ d * 10 ^ p := by
      refine le_trans (two_zpow_le_ten_zpow (by omega)) ?_
      rw [show p + (Decimal.digits d).length - 1 =
        (((Decimal.digits d).length - 1 : Nat) : Int) + p by omega, zpow_add₀ (by norm_num)]
      gcongr
    have := lt_of_two_zpow_lt (lt_of_le_of_lt hle hgreat)
    omega

/-- A decimal is read as the double that it is nearest to. -/
theorem nearestDouble_of_roundsTo (hm : Canonical m q) (hpos : 0 < m)
    (hv : RoundsTo (d * 10 ^ p) m q) : Decimal.nearestDouble d p = ofParts false m q := by
  have hd := hv.digits_pos hm hpos
  obtain ⟨hlower, hupper⟩ := hv.size_bounds hm hpos
  have hnotSmall : ¬(d = 0 ∨ p + (Decimal.digits d).length < -Decimal.sizeLimit) :=
    not_or.2 ⟨Nat.ne_of_gt hd, Int.not_lt.2 hlower⟩
  have hnotGreat : ¬Decimal.sizeLimit < p + (Decimal.digits d).length := Int.not_lt.2 hupper
  rw [Decimal.nearestDouble]
  rw [if_neg hnotSmall, if_neg hnotGreat]
  by_cases hfast : d < 2 ^ 53 ∧ p.natAbs ≤ 22
  · exact ofScientific_fast hm hpos hd hfast.1 hfast.2 hv
  · have hexponent : (if decide (p < 0) = true then Int.negOfNat p.natAbs else Int.ofNat p.natAbs) =
        p := by
      by_cases hneg : p < 0
      · rw [if_pos (decide_eq_true hneg), Int.negOfNat_eq, Int.ofNat_eq_natCast]
        omega
      · rw [if_neg (by simpa using hneg), Int.ofNat_eq_natCast]
        omega
    rw [Float.ofScientific, dif_neg hfast]
    simp only [hexponent]
    rw [Float.Model.ofScientific, ofScientific_slow hm hpos hd hv, ofParts, unpacked_of_pos hpos]
    rfl

end

end Double

end Conditioning
