import Conditioning.Decimal.Binary64
import Conditioning.Proofs.Double.Order
import Conditioning.Proofs.Double.Rounding

/-!
# Doubles and their parts

A finite double has canonical parts, and it is the double that they pack to
(`exists_parts`).  Canonical parts are found again in the packed double
(`unpack_ofParts`), those of a zero and of a short significand as well.

So adding a zero to a double leaves it as it is, but for the sign of a zero, which
comparisons do not see (`lt_add_iff_of_not_pos`).
-/

namespace Conditioning

namespace Double

open Float.Model (Format)
open Float.Model.UnpackedFloat
open Decimal (parts leadingBit)

/-- The sign of a number. -/
def signOf (negative : Bool) : Sign :=
  if negative then .negative else .positive

/-- The value of parts. -/
def unpacked (negative : Bool) (m : Nat) (q : Int) : Float.Model.UnpackedFloat :=
  if h : m = 0 then .zero (signOf negative)
  else .finite (signOf negative) m q (Nat.pos_of_ne_zero h)

/-- The double that parts pack to. -/
def ofParts (negative : Bool) (m : Nat) (q : Int) : Float :=
  .ofModel (.pack (unpacked negative m q))

theorem unpacked_of_pos {m : Nat} (h : 0 < m) (negative : Bool) (q : Int) :
    unpacked negative m q = .finite (signOf negative) m q h :=
  dif_neg (Nat.ne_of_gt h)

/-! ## Bits -/

theorem toNat_packComponents (sign : Sign) (exponent : BitVec 11) (fraction : BitVec 52) :
    (packComponents Format.binary64 sign exponent fraction).toNat =
      sign.toBitVec.toNat * 2 ^ 63 + exponent.toNat * 2 ^ 52 + fraction.toNat := by
  have hexponent := exponent.isLt
  have hfraction := fraction.isLt
  simp only [packComponents, BitVec.toNat_append]
  rw [← Nat.shiftLeft_add_eq_or_of_lt hfraction, ← Nat.shiftLeft_add_eq_or_of_lt hexponent,
    Nat.shiftLeft_eq, Nat.shiftLeft_eq]
  omega

theorem toNat_signOf (negative : Bool) :
    (signOf negative).toBitVec.toNat = if negative then 1 else 0 := by
  cases negative <;> rfl

/-- The bits of a normal double. -/
theorem toNat_pack_normal {m : Nat} {q : Int} (h : Normal m q) (negative : Bool) :
    (pack Format.binary64 (unpacked negative m q)).toNat =
      (if negative then 1 else 0) * 2 ^ 63 + (q + 1075).toNat * 2 ^ 52 + (m - 2 ^ 52) := by
  rw [unpacked_of_pos h.pos, h.pack_eq, toNat_packComponents, h.toNat_exponent,
    h.toNat_significand, toNat_signOf]

/-- A short significand is packed as it is, with the exponent zero. -/
theorem pack_short {m : Nat} (h : m < 2 ^ 52) (negative : Bool) :
    pack Format.binary64 (unpacked negative m (-1074)) =
      packComponents Format.binary64 (signOf negative) 0#11 (BitVec.ofNat 52 m) := by
  rcases Nat.eq_zero_or_pos m with rfl | hpos
  · rfl
  · have hlog : m.log2 < 52 := (Nat.log2_lt (Nat.ne_of_gt hpos)).2 h
    rw [unpacked_of_pos hpos, pack_finite, if_neg (by decide), if_neg (by omega)]

theorem toNat_pack_short {m : Nat} (h : m < 2 ^ 52) (negative : Bool) :
    (pack Format.binary64 (unpacked negative m (-1074))).toNat =
      (if negative then 1 else 0) * 2 ^ 63 + m := by
  have hpacked := toNat_packComponents (signOf negative) 0#11 (BitVec.ofNat 52 m)
  rw [toNat_signOf, BitVec.toNat_ofNat, BitVec.toNat_ofNat, Nat.mod_eq_of_lt h] at hpacked
  rw [pack_short h, hpacked]
  simp

/-! ## Packing and unpacking -/

/-- Canonical parts are found again. -/
theorem unpack_ofParts {m : Nat} {q : Int} (h : Canonical m q) (negative : Bool) :
    (ofParts negative m q).toModel.unpack = unpacked negative m q := by
  show unpack Format.binary64 (pack Format.binary64 (unpacked negative m q)) = _
  cases h with
  | normal h =>
    rw [unpacked_of_pos h.pos]
    exact h.unpack_pack (signOf negative)
  | short h =>
    rw [pack_short h]
    rcases Nat.eq_zero_or_pos m with rfl | hpos
    · exact unpack_zero
    · have hvalue : (BitVec.ofNat 52 m).toNat = m := by
        rw [BitVec.toNat_ofNat, Nat.mod_eq_of_lt h]
      have hne : BitVec.ofNat 52 m ≠ 0#52 := by
        intro heq
        rw [heq] at hvalue
        exact Nat.ne_of_lt hpos hvalue
      rw [unpack_short hne, unpacked_of_pos hpos]
      exact finite_congr hvalue rfl

/-- Doubles with the same bits are the same. -/
theorem eq_ofModel_of_toNat {x : Float} {u : Float.Model.UnpackedFloat}
    (h : x.toBits.toNat = (pack Format.binary64 u).toNat) : x = .ofModel (.pack u) := by
  obtain ⟨⟨bits, hvalid⟩⟩ := x
  have hbits : bits = UInt64.ofBitVec (pack Format.binary64 u) := UInt64.toNat_inj.1 h
  subst hbits
  rfl

theorem toNat_unpackExponent (x : Float) :
    (@unpackExponent Format.binary64 x.toModel.toBits.toBitVec).toNat =
      x.toBits.toNat / leadingBit % 2048 := by
  show (BitVec.toNat _ >>> 52) % 2 ^ 11 = _
  rw [Nat.shiftRight_eq_div_pow]
  rfl

/-- The greatest power of two is that of infinities and of what is no number. -/
theorem isFinite_iff (x : Float) :
    x.isFinite = true ↔ x.toBits.toNat / leadingBit % 2048 ≠ 2047 := by
  have hones : @unpackExponent Format.binary64 x.toModel.toBits.toBitVec = -1#11 ↔
      x.toBits.toNat / leadingBit % 2048 = 2047 := by
    rw [← BitVec.toNat_inj, toNat_unpackExponent]
    rfl
  exact isFinite_unpack_iff.trans (not_congr hones)

/-- A finite double is what its canonical parts pack to. -/
theorem exists_parts {x : Float} (h : x.isFinite = true) :
    ∃ negative m q, parts x = .finite negative m q ∧ Canonical m q ∧ x = ofParts negative m q := by
  have hexponent := (isFinite_iff x).1 h
  have hlt : x.toBits.toNat < 2 ^ 64 := x.toBits.toNat_lt
  have hleading : leadingBit = 2 ^ 52 := rfl
  have hsign : (if (decide (9223372036854775808 ≤ x.toBits.toNat)) = true then 1 else 0) =
      x.toBits.toNat / 2 ^ 63 := by
    by_cases hneg : 9223372036854775808 ≤ x.toBits.toNat
    · rw [if_pos (decide_eq_true hneg)]
      omega
    · rw [if_neg (by simpa using hneg)]
      omega
  rw [hleading] at hexponent
  refine ⟨decide (9223372036854775808 ≤ x.toBits.toNat), ?_⟩
  by_cases hzero : x.toBits.toNat / 2 ^ 52 % 2048 = 0
  · have hfraction : x.toBits.toNat % 2 ^ 52 < 2 ^ 52 := Nat.mod_lt _ (Nat.two_pow_pos 52)
    refine ⟨x.toBits.toNat % 2 ^ 52, -1074, ?_, .short hfraction, eq_ofModel_of_toNat ?_⟩
    · simp only [parts, hleading]
      rw [if_neg hexponent, if_pos hzero]
      rfl
    · rw [toNat_pack_short hfraction, hsign]
      omega
  · have hnormal : Normal (2 ^ 52 + x.toBits.toNat % 2 ^ 52)
        (-1074 + (x.toBits.toNat / 2 ^ 52 % 2048 - 1 : Nat)) :=
      ⟨by omega, by omega, by omega, by omega⟩
    refine ⟨_, _, ?_, .normal hnormal, eq_ofModel_of_toNat ?_⟩
    · simp only [parts, hleading]
      rw [if_neg hexponent, if_neg hzero]
      rfl
    · rw [toNat_pack_normal hnormal, hsign]
      omega

/-- What is not finite has no parts. -/
theorem parts_ne_finite {x : Float} (h : x.isFinite = false) (negative : Bool) (m : Nat) (q : Int) :
    parts x ≠ .finite negative m q := by
  have hexponent : x.toBits.toNat / leadingBit % 2048 = 2047 := by
    by_contra hne
    rw [(isFinite_iff x).2 hne] at h
    cases h
  simp only [parts]
  rw [if_pos hexponent]
  split <;> simp

/-! ## Adding zero -/

theorem lt_iff (x y : Float) : x < y ↔
    Float.Model.UnpackedFloat.lt x.toModel.unpack y.toModel.unpack = true := by
  show decide (_ = true) = true ↔ _
  rw [decide_eq_true_iff]
  rfl

/-- What is not negative and not positive is zero. -/
theorem exists_unpack_eq_zero {x : Float} (hx : 0.0 ≤ x) (hnot : ¬0.0 < x) :
    ∃ sign, x.toModel.unpack = .zero sign := by
  have hle := (zero_le_iff x).1 hx
  have hlt : Float.Model.UnpackedFloat.lt (.zero .positive) x.toModel.unpack = false :=
    Bool.eq_false_iff.2 fun h => hnot ((lt_iff _ _).2 h)
  generalize x.toModel.unpack = parts at hle hlt
  cases hle with
  | zero sign => exact ⟨sign, rfl⟩
  | finite => cases hlt
  | infinity => cases hlt

/-- Adding a zero changes at most the sign of a zero. -/
theorem unpack_add_zero {x y : Float} (hx : 0.0 ≤ x) {sign : Sign}
    (hy : y.toModel.unpack = .zero sign) :
    (x + y).toModel.unpack = x.toModel.unpack ∨
      ∃ s s', x.toModel.unpack = .zero s ∧ (x + y).toModel.unpack = .zero s' := by
  have hle := (zero_le_iff x).1 hx
  have hsum : (x + y).toModel.unpack = unpack Format.binary64 (pack Format.binary64
      (add Format.binary64 x.toModel.unpack (.zero sign))) := by
    rw [← hy]
    rfl
  rw [hsum]
  cases hparts : x.toModel.unpack with
  | zero s =>
    right
    cases s <;> cases sign <;> exact ⟨_, _, rfl, rfl⟩
  | infinity s =>
    left
    cases s <;> cases sign <;> rfl
  | notANumber =>
    rw [hparts] at hle
    cases hle
  | finite s m e hm =>
    left
    have hfinite : x.isFinite = true := by
      show x.toModel.unpack.isFinite = true
      rw [hparts]
      rfl
    obtain ⟨negative, m', q, -, hcanonical, rfl⟩ := exists_parts hfinite
    have hunpack := unpack_ofParts hcanonical negative
    have hsame : add Format.binary64 (.finite s m e hm) (.zero sign) = unpacked negative m' q := by
      rw [← hunpack, hparts]
      rfl
    rw [hsame, ← hparts]
    rfl

/-- Zero adds nothing that a comparison can tell. -/
theorem lt_add_iff_of_not_pos {r x y : Float} (hx : 0.0 ≤ x) (hy : 0.0 ≤ y) (hnot : ¬0.0 < y) :
    r < x + y ↔ r < x := by
  obtain ⟨sign, hzero⟩ := exists_unpack_eq_zero hy hnot
  rw [lt_iff, lt_iff]
  rcases unpack_add_zero hx hzero with hsame | ⟨s, s', hx, hsum⟩
  · rw [hsame]
  · rw [hx, hsum]
    cases r.toModel.unpack with
    | infinity sign => cases sign <;> rfl
    | finite sign => cases sign <;> rfl
    | _ => rfl

end Double

end Conditioning
