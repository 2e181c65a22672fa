import Mathlib.Algebra.Order.Ring.Int

/-!
# Doubles in parts

A double is its 64 bits, and its arithmetic is done on parts: a sign, a
significand and a power of two.  The parts are rounded until they fit and then
packed.  What is packed, and what bits stand for, is said once for the format of
doubles (`Double.pack_finite`, `Double.unpack_of_fields`).

Parts whose significand has its full 53 bits and whose power is within bounds
(`Double.Normal`) fit as they are: rounding leaves them alone, also when zero bits
are appended to them, and they are found again in the packed double
(`Double.Normal.unpack_pack`).

Packing may also turn large parts into an infinity.  It keeps the sign, and it
never makes up a value that cannot be compared (`Double.nonnegative_unpack_pack`).
-/

namespace Conditioning

namespace Double

open Float.Model (Format totalExponent)
open Float.Model.UnpackedFloat

/-! ## The format of doubles -/

/-- Rounding goes for 53 bits, or for fewer below the least power of two. -/
theorem targetExponent_binary64 (e : Int) :
    Format.binary64.targetExponent e = max (e - 53) (-1074) := rfl

theorem finite_congr {sign : Sign} {m m' : Nat} {e e' : Int} {h : 0 < m} (hm : m = m')
    (he : e = e') : Float.Model.UnpackedFloat.finite sign m e h = .finite sign m' e' (hm ▸ h) := by
  subst hm he
  rfl

/-- A number is packed as an infinity if its power is too great, without its leading bit if it has
all bits, and else as it is. -/
theorem pack_finite (sign : Sign) (m : Nat) (e : Int) (h : 0 < m) :
    pack Format.binary64 (.finite sign m e h) =
      if 2048 ≤ (e + 1075).toNat + 1 then packedInfinity Format.binary64 sign
      else if m.log2 + 1 = 53 then
        packComponents Format.binary64 sign (BitVec.ofNat 11 (e + 1075).toNat) (BitVec.ofNat 52 m)
      else packComponents Format.binary64 sign 0#11 (BitVec.ofNat 52 m) := by
  rw [show e + 1075 = e + 1023 + 52 by omega]
  rfl

/-- Only the exponent 2047 is that of infinities. -/
theorem ofNat_ne_greatest {n : Nat} (h : n < 2047) : BitVec.ofNat 11 n ≠ -1#11 := by
  intro heq
  have hn := congrArg BitVec.toNat heq
  rw [BitVec.toNat_ofNat, show (-1#11).toNat = 2047 from rfl] at hn
  omega

/-- A significand of 52 bits with the leading bit in front. -/
theorem toNat_one_append (significand : BitVec 52) :
    (1#1 ++ significand).toNat = 2 ^ 52 + significand.toNat := by
  rw [BitVec.toNat_append, ← Nat.shiftLeft_add_eq_or_of_lt significand.isLt]
  rfl

section

variable {sign : Sign} {exponent : BitVec 11} {significand : BitVec 52}

/-- What a double stands for, by its exponent and its significand. -/
theorem unpack_of_fields {bits : BitVec 64}
    (hsign : Sign.ofBitVec (@unpackSign Format.binary64 bits) = sign)
    (hexponent : @unpackExponent Format.binary64 bits = exponent)
    (hsignificand : @unpackMantissa Format.binary64 bits = significand) :
    unpack Format.binary64 bits =
      if exponent = -1#11 then
        if significand = 0#52 then .infinity sign else .notANumber
      else if exponent = 0#11 then
        if h : significand = 0#52 then .zero sign
        else .finite sign significand.toNat (exponent.toNat - 1075 + 1)
          (BitVec.toNat_pos_of_ne_zero h)
      else .finite sign (1#1 ++ significand).toNat (exponent.toNat - 1075) (by
        rw [toNat_one_append]
        omega) := by
  subst hsign hexponent hsignificand
  rfl

/-- The greatest exponent is that of the infinities and of what is no number. -/
theorem isFinite_unpack_iff {bits : BitVec 64} :
    (unpack Format.binary64 bits).isFinite = true ↔
      @unpackExponent Format.binary64 bits ≠ -1#11 := by
  rw [unpack_of_fields rfl rfl rfl]
  by_cases hgreatest : @unpackExponent Format.binary64 bits = -1#11
  · refine iff_of_false ?_ (not_not_intro hgreatest)
    rw [if_pos hgreatest]
    by_cases hzero : @unpackMantissa Format.binary64 bits = 0#52
    · rw [if_pos hzero]
      exact Bool.false_ne_true
    · rw [if_neg hzero]
      exact Bool.false_ne_true
  · refine iff_of_true ?_ hgreatest
    rw [if_neg hgreatest]
    by_cases hleast : @unpackExponent Format.binary64 bits = 0#11
    · rw [if_pos hleast]
      by_cases hzero : @unpackMantissa Format.binary64 bits = 0#52
      · rw [dif_pos hzero]
        rfl
      · rw [dif_neg hzero]
        rfl
    · rw [if_neg hleast]
      rfl

theorem sign_packComponents :
    Sign.ofBitVec (unpackSign (packComponents Format.binary64 sign exponent significand)) =
      sign := by
  have hfirst (bit : BitVec 1) : (bit ++ exponent ++ significand).extractLsb' 63 1 = bit :=
    (BitVec.extractLsb'_append_eq_of_le (by decide)).trans BitVec.extractLsb'_append_eq_left
  have hbit : unpackSign (packComponents Format.binary64 sign exponent significand) =
      sign.toBitVec := hfirst sign.toBitVec
  rw [hbit]
  cases sign <;> rfl

/-- The greatest exponent without a significand is that of an infinity. -/
theorem unpack_infinity :
    unpack Format.binary64 (packComponents Format.binary64 sign (-1#11) 0#52) =
      .infinity sign := by
  rw [unpack_of_fields sign_packComponents unpackExponent_packComponents
    unpackMantissa_packComponents, if_pos rfl, if_pos rfl]

theorem unpack_zero :
    unpack Format.binary64 (packComponents Format.binary64 sign 0#11 0#52) = .zero sign := by
  rw [unpack_of_fields sign_packComponents unpackExponent_packComponents
    unpackMantissa_packComponents, if_neg (by decide), if_pos rfl, dif_pos rfl]

/-- The exponent zero is that of a significand without a leading bit. -/
theorem unpack_short (h : significand ≠ 0#52) :
    unpack Format.binary64 (packComponents Format.binary64 sign 0#11 significand) =
      .finite sign significand.toNat (-1074) (BitVec.toNat_pos_of_ne_zero h) := by
  rw [unpack_of_fields sign_packComponents unpackExponent_packComponents
    unpackMantissa_packComponents, if_neg (by decide), if_pos rfl, dif_neg h]
  rfl

/-- Any other exponent is that of a significand with a leading bit. -/
theorem unpack_normal (hleast : exponent ≠ 0#11) (hgreatest : exponent ≠ -1#11) :
    unpack Format.binary64 (packComponents Format.binary64 sign exponent significand) =
      .finite sign (2 ^ 52 + significand.toNat) (exponent.toNat - 1075) (by omega) := by
  rw [unpack_of_fields sign_packComponents unpackExponent_packComponents
    unpackMantissa_packComponents, if_neg hgreatest, if_neg hleast]
  exact finite_congr (toNat_one_append significand) rfl

end

/-- Rounding shifts bits out, rounds, and shifts once more what has become too long. -/
theorem roundWithAccuracy_eq_finite {M m : Nat} {E e q : Int} {accuracy : Accuracy}
    {em em' : ExtendedMantissa} {sign : Sign}
    (hfirst : shiftToTargetExponent Format.binary64 M E accuracy = (em, e))
    (hsecond : shiftToTargetExponent Format.binary64 em.roundedMantissa e .exact = (em', q))
    (hm : em'.mantissa = m) (hpos : 0 < m) :
    roundWithAccuracy Format.binary64 sign M E accuracy = .finite sign m q hpos := by
  subst hm
  rw [roundWithAccuracy, hfirst]
  dsimp only
  rw [hsecond]
  exact dif_neg (Nat.ne_of_gt hpos)

/-! ## Normal parts -/

/-- A full significand, with a power of two for which there are normal doubles. -/
structure Normal (m : Nat) (e : Int) : Prop where
  lower : 2 ^ 52 ≤ m
  upper : m < 2 ^ 53
  least : -1074 ≤ e
  greatest : e ≤ 971

namespace Normal

variable {m : Nat} {e : Int}

theorem pos (h : Normal m e) : 0 < m := Nat.lt_of_lt_of_le (Nat.two_pow_pos 52) h.lower

theorem log2_mul_two_pow (h : Normal m e) (k : Nat) : (m * 2 ^ k).log2 = 52 + k := by
  have hpos : m * 2 ^ k ≠ 0 := Nat.ne_of_gt (Nat.mul_pos h.pos (Nat.two_pow_pos k))
  refine (Nat.log2_eq_iff hpos).2 ⟨?_, ?_⟩
  · rw [Nat.pow_add]
    exact Nat.mul_le_mul_right _ h.lower
  · rw [show 52 + k + 1 = 53 + k by omega, Nat.pow_add]
    exact Nat.mul_lt_mul_of_pos_right h.upper (Nat.two_pow_pos k)

theorem log2_eq (h : Normal m e) : m.log2 = 52 := by
  simpa using h.log2_mul_two_pow 0

/-- Rounding goes for the power that the parts have, whatever zero bits are appended. -/
theorem targetExponent_eq (h : Normal m e) (k : Nat) :
    Format.binary64.targetExponent (totalExponent (m * 2 ^ k) (e - k)) = e := by
  have := h.least
  rw [targetExponent_binary64, totalExponent, h.log2_mul_two_pow]
  omega

end Normal

/-- Zero bits are shifted out without a trace. -/
theorem shiftRight_mul_two_pow (m k : Nat) :
    ExtendedMantissa.ofMantissaAndAccuracy (m * 2 ^ k) .exact >>> k =
      ExtendedMantissa.ofMantissaAndAccuracy m .exact := by
  induction k generalizing m with
  | zero =>
    rw [Nat.pow_zero, Nat.mul_one]
    rfl
  | succ k ih =>
    have hshift : m * 2 ^ (k + 1) = m * 2 * 2 ^ k := by
      rw [Nat.pow_succ, Nat.mul_assoc, Nat.mul_comm 2]
    rw [hshift]
    show ExtendedMantissa.shiftRightOne
      (ExtendedMantissa.ofMantissaAndAccuracy (m * 2 * 2 ^ k) .exact >>> k) = _
    rw [ih]
    simp [ExtendedMantissa.shiftRightOne, ExtendedMantissa.ofMantissaAndAccuracy]

namespace Normal

variable {m : Nat} {e : Int}

theorem shiftToTargetExponent_eq (h : Normal m e) (k : Nat) :
    shiftToTargetExponent Format.binary64 (m * 2 ^ k) (e - k) .exact =
      (ExtendedMantissa.ofMantissaAndAccuracy m .exact, e) := by
  have hamount : (e - (e - k)).toNat = k := by omega
  have hpower : e - (k : Int) + (k : Int) = e := by omega
  simp only [shiftToTargetExponent, h.targetExponent_eq, shiftToExponent, hamount, hpower,
    shiftRight_mul_two_pow]

/-- Rounding removes appended zero bits and changes nothing else. -/
theorem roundWithAccuracy_eq (h : Normal m e) (sign : Sign) (k : Nat) :
    roundWithAccuracy Format.binary64 sign (m * 2 ^ k) (e - k) .exact = .finite sign m e h.pos := by
  have hagain : shiftToTargetExponent Format.binary64 m e .exact =
      (ExtendedMantissa.ofMantissaAndAccuracy m .exact, e) := by
    simpa using h.shiftToTargetExponent_eq 0
  exact roundWithAccuracy_eq_finite (h.shiftToTargetExponent_eq k) hagain rfl h.pos

theorem roundWithAccuracy_self (h : Normal m e) (sign : Sign) :
    roundWithAccuracy Format.binary64 sign m e .exact = .finite sign m e h.pos := by
  have hrounded := h.roundWithAccuracy_eq sign 0
  rwa [Nat.pow_zero, Nat.mul_one, Int.natCast_zero, Int.sub_zero] at hrounded

/-- Normal parts are packed without their leading bit. -/
theorem pack_eq (h : Normal m e) (sign : Sign) :
    pack Format.binary64 (.finite sign m e h.pos) =
      packComponents Format.binary64 sign (BitVec.ofNat 11 (e + 1075).toNat)
        (BitVec.ofNat 52 m) := by
  have hgreatest := h.greatest
  rw [pack_finite, if_neg (by omega), if_pos (by rw [h.log2_eq])]

theorem toNat_exponent (h : Normal m e) :
    (BitVec.ofNat 11 (e + 1075).toNat).toNat = (e + 1075).toNat := by
  obtain ⟨hlower, hupper, hleast, hgreatest⟩ := h
  rw [BitVec.toNat_ofNat]
  omega

theorem toNat_significand (h : Normal m e) : (BitVec.ofNat 52 m).toNat = m - 2 ^ 52 := by
  obtain ⟨hlower, hupper, hleast, hgreatest⟩ := h
  rw [BitVec.toNat_ofNat]
  omega

/-- Normal parts are found again in the packed double. -/
theorem unpack_pack (h : Normal m e) (sign : Sign) :
    unpack Format.binary64 (pack Format.binary64 (.finite sign m e h.pos)) =
      .finite sign m e h.pos := by
  have hexponent := h.toNat_exponent
  have hsignificand := h.toNat_significand
  rw [h.pack_eq]
  obtain ⟨hlower, hupper, hleast, hgreatest⟩ := h
  have hnormal : BitVec.ofNat 11 (e + 1075).toNat ≠ 0#11 := by
    intro heq
    rw [heq, show (0#11).toNat = 0 from rfl] at hexponent
    omega
  rw [unpack_normal hnormal (ofNat_ne_greatest (by omega))]
  exact finite_congr (by omega) (by omega)

end Normal

/-! ## Values that are not negative -/

/-- Zero, positive numbers and positive infinity. -/
inductive Nonnegative : Float.Model.UnpackedFloat → Prop where
  | zero (sign : Sign) : Nonnegative (.zero sign)
  | finite (m : Nat) (e : Int) (h : 0 < m) : Nonnegative (.finite .positive m e h)
  | infinity : Nonnegative (.infinity .positive)

/-- What is packed with a positive sign can be compared, unless it has the exponent of infinity
and a significand. -/
theorem nonnegative_unpack_packComponents (exponent : BitVec 11) (significand : BitVec 52)
    (h : exponent = -1#11 → significand = 0#52) :
    Nonnegative (unpack Format.binary64
      (packComponents Format.binary64 .positive exponent significand)) := by
  by_cases hgreatest : exponent = -1#11
  · rw [hgreatest, h hgreatest, unpack_infinity]
    exact .infinity
  · by_cases hleast : exponent = 0#11
    · by_cases hzero : significand = 0#52
      · rw [hleast, hzero, unpack_zero]
        exact .zero _
      · rw [hleast, unpack_short hzero]
        exact .finite _ _ _
    · rw [unpack_normal hleast hgreatest]
      exact .finite _ _ _

/-- Packing keeps a value from being negative. -/
theorem nonnegative_unpack_pack {x : Float.Model.UnpackedFloat} (h : Nonnegative x) :
    Nonnegative (unpack Format.binary64 (pack Format.binary64 x)) := by
  cases h with
  | zero sign => cases sign <;> exact .zero _
  | infinity => exact .infinity
  | finite m e h =>
    rw [pack_finite]
    split
    next => exact .infinity
    next hfits =>
      have hexponent := ofNat_ne_greatest (Nat.lt_of_succ_lt_succ (Nat.lt_of_not_le hfits))
      split
      next => exact nonnegative_unpack_packComponents _ _ fun heq => absurd heq hexponent
      next => exact nonnegative_unpack_packComponents _ _ fun heq => absurd heq (by decide)

end Double

end Conditioning
