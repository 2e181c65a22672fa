import Conditioning.Proofs.Double.Packing
import Conditioning.Random.Generator

/-!
# Draws

A draw is the upper 53 bits of a word times `2 ^ -53`.  A whole number of 53 bits
is a double, and the product of a double with a power of two is one as well, as
long as it is not too small.  So nothing is rounded, and a draw is less than one
(`Generator.unit_lt_one`).
-/

namespace Conditioning

namespace Double

open Float.Model (Format totalExponent)
open Float.Model.UnpackedFloat

/-- A positive whole number below 2^53, its leading bit moved to the front of the significand. -/
theorem normal_of_lt {n : Nat} (hpos : 0 < n) (hlt : n < 2 ^ 53) :
    n.log2 ≤ 52 ∧ Normal (n * 2 ^ (52 - n.log2)) (-(52 - n.log2 : Nat)) := by
  have hlog : n.log2 ≤ 52 := Nat.lt_succ_iff.1 ((Nat.log2_lt (Nat.ne_of_gt hpos)).2 hlt)
  have hlower : 2 ^ n.log2 ≤ n := Nat.log2_self_le (Nat.ne_of_gt hpos)
  have hupper : n < 2 ^ (n.log2 + 1) := Nat.lt_log2_self
  refine ⟨hlog, ⟨?_, ?_, by omega, by omega⟩⟩
  · calc 2 ^ 52 = 2 ^ n.log2 * 2 ^ (52 - n.log2) := by rw [← Nat.pow_add]; congr 1; omega
      _ ≤ n * 2 ^ (52 - n.log2) := Nat.mul_le_mul_right _ hlower
  · calc n * 2 ^ (52 - n.log2) < 2 ^ (n.log2 + 1) * 2 ^ (52 - n.log2) :=
          Nat.mul_lt_mul_of_pos_right hupper (Nat.two_pow_pos _)
      _ = 2 ^ 53 := by rw [← Nat.pow_add]; congr 1; omega

/-- A whole number of 53 bits is a double. -/
theorem unpack_toFloat {n : UInt64} (hpos : 0 < n.toNat) (hlt : n.toNat < 2 ^ 53) :
    ∃ k : Nat, ∃ h : Normal (n.toNat * 2 ^ k) (-k : Int), k ≤ 52 ∧
      n.toFloat.toModel.unpack = .finite .positive (n.toNat * 2 ^ k) (-k) h.pos := by
  obtain ⟨hlog, hnormal⟩ := normal_of_lt hpos hlt
  refine ⟨52 - n.toNat.log2, hnormal, Nat.sub_le 52 _, ?_⟩
  have hsign : compare (n.toNat : Int) 0 = .gt := Int.compare_eq_gt.2 (by omega)
  have htarget : Format.binary64.targetExponent (totalExponent n.toNat 0) =
      -(52 - n.toNat.log2 : Nat) := by
    rw [targetExponent_binary64, totalExponent]
    omega
  have hparts : ofUInt64 Format.binary64 n =
      .finite .positive (n.toNat * 2 ^ (52 - n.toNat.log2)) (-(52 - n.toNat.log2 : Nat))
        hnormal.pos := by
    rw [← hnormal.roundWithAccuracy_self .positive]
    simp only [ofUInt64, ofNat, ofInt, Float.Model.UnpackedFloat.normalize, hsign,
      Float.Model.UnpackedFloat.round, Int.toNat_natCast, htarget, decreaseExponent, Int.zero_sub,
      Int.neg_neg, Nat.shiftLeft_eq]
  show unpack Format.binary64 (pack Format.binary64 (ofUInt64 Format.binary64 n)) = _
  rw [hparts]
  exact hnormal.unpack_pack .positive

/-- The parts of `2 ^ -53`. -/
theorem unpack_scale : (1.0 / 9007199254740992.0 : Float).toModel.unpack =
    .finite .positive (2 ^ 52) (-105) (Nat.two_pow_pos 52) := rfl

/-- The parts of one. -/
theorem unpack_one : (1.0 : Float).toModel.unpack =
    .finite .positive (2 ^ 52) (-52) (Nat.two_pow_pos 52) := rfl

end Double

namespace Generator

open Float.Model (Format)
open Float.Model.UnpackedFloat
open Double (Normal)

/-- A draw that is not zero is the upper 53 bits of the word times `2 ^ -53`, exactly. -/
theorem unpack_unitOfWord {x : UInt64} (hpos : 0 < (x >>> 11).toNat) :
    ∃ k : Nat, ∃ h : Normal ((x >>> 11).toNat * 2 ^ k) (-k - 53 : Int),
      (unitOfWord x).toModel.unpack =
        .finite .positive ((x >>> 11).toNat * 2 ^ k) (-k - 53) h.pos := by
  have hlt : (x >>> 11).toNat < 2 ^ 53 := by
    have := x.toNat_lt
    rw [UInt64.toNat_shiftRight, Nat.shiftRight_eq_div_pow,
      show (11 : UInt64).toNat % 64 = 11 from rfl]
    omega
  obtain ⟨k, hnormal, hk, hnumber⟩ := Double.unpack_toFloat hpos hlt
  have hscaled : Normal ((x >>> 11).toNat * 2 ^ k) (-k - 53 : Int) :=
    ⟨hnormal.lower, hnormal.upper, by omega, by omega⟩
  refine ⟨k, hscaled, ?_⟩
  have hproduct := hscaled.roundWithAccuracy_eq .positive 52
  show unpack Format.binary64 (pack Format.binary64 (mul Format.binary64
    (x >>> 11).toFloat.toModel.unpack (1.0 / 9007199254740992.0 : Float).toModel.unpack)) = _
  rw [hnumber, Double.unpack_scale]
  have hparts : mul Format.binary64
      (.finite .positive ((x >>> 11).toNat * 2 ^ k) (-k) hnormal.pos)
      (.finite .positive (2 ^ 52) (-105) (Nat.two_pow_pos 52)) =
        .finite .positive ((x >>> 11).toNat * 2 ^ k) (-k - 53) hscaled.pos := by
    rw [← hproduct]
    show roundWithAccuracy Format.binary64 .positive _ (-k + -105) .exact = _
    congr 1
    omega
  rw [hparts]
  exact hscaled.unpack_pack .positive

theorem unitOfWord_lt_one (x : UInt64) : unitOfWord x < 1.0 := by
  rcases Nat.eq_zero_or_pos (x >>> 11).toNat with hzero | hpos
  · have hword : x >>> 11 = 0 := UInt64.toNat_inj.1 hzero
    rw [unitOfWord, hword]
    decide
  · obtain ⟨k, hnormal, hparts⟩ := unpack_unitOfWord hpos
    have hpower : compare (-k - 53 : Int) (-52) = .lt := Int.compare_eq_lt.2 (by omega)
    refine decide_eq_true (?_ : Float.Model.UnpackedFloat.lt _ _ = true)
    rw [hparts, Double.unpack_one]
    show (some ((compare (-k - 53 : Int) (-52)).then (compare _ _)) == some Ordering.lt) = true
    rw [hpower]
    rfl

/-- A draw is less than one. -/
theorem unit_lt_one (g : Generator) : g.unit.1 < 1.0 := unitOfWord_lt_one _

end Generator

end Conditioning
