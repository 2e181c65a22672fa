import Conditioning.Literal.Printer
import Conditioning.Proofs.Double.Scientific
import Conditioning.Proofs.Double.Shortest
import Conditioning.Proofs.Literal.Spelling
import Mathlib.Data.Nat.Cast.Field

/-!
# The text of a double

A finite double is written as digits with a point among them and a minus in
front of a negative one.  What stands there is a number that is rounded to the
double: the double itself if it is whole, and otherwise its shortest decimal,
which has digits behind the point.  So the double is read back from its text
(`readsBack_of_isFinite`).
-/

namespace Conditioning.Literal

open Decimal (Scaled digits value nearestDouble isWhole wholePart shortest around pointedText)
open Double (Canonical RoundsTo ofParts)

theorem neg_ofParts {m : Nat} {q : Int} (h : Canonical m q) :
    -ofParts false m q = ofParts true m q := by
  have hneg : -ofParts false m q = .ofModel (.pack (.neg (Double.unpacked false m q))) := by
    rw [← Double.unpack_ofParts h]
    rfl
  rw [hneg, ofParts]
  rcases Nat.eq_zero_or_pos m with rfl | hpos
  · rfl
  · rw [Double.unpacked_of_pos hpos, Double.unpacked_of_pos hpos]
    rfl

/-! ## Digits around a point -/

/-- Digits with a point among them that stand for a number rounded to the double. -/
structure PointedText (body : List Char) (m : Nat) (q : Int) (front back : List Char) : Prop where
  eq : body = front ++ '.' :: back
  ne_nil : front ≠ []
  isDigit_front : ∀ c ∈ front, Decimal.isDigit c = true
  isDigit_back : ∀ c ∈ back, Decimal.isDigit c = true
  nearest : nearestDouble (value (front ++ back)) (-(back.length : Int)) = ofParts false m q

section

variable {m : Nat} {q : Int} {body front back : List Char}

/-- What is read from a pointed number. -/
theorem PointedText.readDouble? (h : PointedText body m q front back) (hm : Canonical m q)
    (negative : Bool) :
    Decimal.readDouble? (signed negative body) = some (ofParts negative m q) := by
  obtain ⟨rfl, hne, hfront, hback, hnearest⟩ := h
  have hstop : ∀ c ∈ ([] : List Char).head?, Decimal.isDigit c = false := fun _ hc => nomatch hc
  have hread := readDouble?_signed negative (List.append_ne_nil_of_left_ne_nil hne back) hfront
    hback hstop rfl ((congrArg _ (Int.zero_sub _)).trans hnearest)
  rw [List.append_nil] at hread
  rw [hread]
  cases negative with
  | true => rw [if_pos rfl, neg_ofParts hm]
  | false => rfl

/-! ## Whole numbers -/

theorem wholePart_eq (h : isWhole m q = true) : (wholePart m q : ℚ) = m * 2 ^ q := by
  have hdvd : 2 ^ (-q).toNat ∣ m * 2 ^ q.toNat :=
    Dvd.dvd.mul_right (Nat.dvd_of_mod_eq_zero (beq_iff_eq.1 h)) _
  have hpow : (0 : ℚ) < 2 ^ (-q).toNat := by positivity
  have hmul := Double.zpow_mul_pow_toNat (two_ne_zero (α := ℚ)) q
  simp only [wholePart, Nat.pow_eq]
  rw [Nat.cast_div hdvd (by exact_mod_cast hpow.ne')]
  push_cast
  rw [div_eq_iff hpow.ne', mul_assoc, hmul]

theorem roundsTo_self (m : Nat) (q : Int) : RoundsTo (m * 2 ^ q) m q := by
  have hq : (0 : ℚ) < 2 ^ q := by positivity
  constructor
  · exact mul_le_mul_of_nonneg_right (by linarith) hq.le
  · exact mul_le_mul_of_nonneg_right (by linarith) hq.le
  · exact fun _ => ⟨mul_lt_mul_of_pos_right (by linarith) hq,
      mul_lt_mul_of_pos_right (by linarith) hq⟩
  · exact fun _ _ => mul_le_mul_of_nonneg_right (by linarith) hq.le

theorem zero_eq_ofParts (q : Int) : (0.0 : Float) = ofParts false 0 q :=
  have hzero : (0.0 : Float) = .ofModel (.pack (.zero .positive)) :=
    Double.eq_ofModel_of_toNat (by decide +kernel)
  hzero

theorem pointedText_whole (hm : Canonical m q) (hwhole : isWhole m q = true) :
    PointedText (digits (wholePart m q) ++ ['.', '0']) m q (digits (wholePart m q)) ['0'] := by
  have hvalue : value (digits (wholePart m q) ++ ['0']) = 10 * wholePart m q := by
    rw [Decimal.value_append_singleton, Decimal.value_digits]
    rfl
  refine ⟨rfl, Decimal.digits_ne_nil _, fun c => Decimal.isDigit_of_mem_digits, ?_, ?_⟩
  · intro c hc
    rw [List.mem_singleton.1 hc]
    rfl
  · rw [hvalue]
    rcases Nat.eq_zero_or_pos m with rfl | hpos
    · have hzero : wholePart 0 q = 0 := by simp [wholePart]
      rw [hzero, nearestDouble, if_pos (.inl rfl)]
      exact zero_eq_ofParts q
    · have hself : ((10 * wholePart m q : Nat) : ℚ) * 10 ^ (-((['0'].length : Nat) : Int)) =
          m * 2 ^ q := by
        rw [← wholePart_eq hwhole]
        push_cast
        norm_num
        ring
      refine Double.nearestDouble_of_roundsTo hm hpos ?_
      rw [hself]
      exact roundsTo_self m q

/-! ## Shortest decimals -/

/-- A whole number is only rounded to whole doubles. -/
theorem isWhole_of_roundsTo {n : Nat} (h : RoundsTo n m q) : isWhole m q = true := by
  rw [isWhole, beq_iff_eq, Nat.pow_eq]
  rcases Int.le_total 0 q with hq | hq
  · rw [show (-q).toNat = 0 by omega, pow_zero, Nat.mod_one]
  · have hmul := Double.zpow_mul_pow_toNat (two_ne_zero (α := ℚ)) q
    have hpow : (0 : ℚ) < 2 ^ (-q).toNat := by positivity
    rw [show q.toNat = 0 by omega, pow_zero] at hmul
    have hlower := mul_le_mul_of_nonneg_right h.lower hpow.le
    have hupper := mul_le_mul_of_nonneg_right h.upper hpow.le
    rw [mul_assoc, hmul, mul_one] at hlower hupper
    have hle : m ≤ n * 2 ^ (-q).toNat := by
      have : (m : ℚ) < n * 2 ^ (-q).toNat + 1 := by linarith
      exact Nat.lt_succ_iff.1 (by exact_mod_cast this)
    have hge : n * 2 ^ (-q).toNat ≤ m := by
      have : (n * 2 ^ (-q).toNat : ℚ) < m + 1 := by linarith
      exact Nat.lt_succ_iff.1 (by exact_mod_cast this)
    rw [Nat.le_antisymm hle hge, Nat.mul_mod_left]

theorem value_zeros_append (k : Nat) (ds : List Char) :
    value (List.replicate k '0' ++ ds) = value ds := by
  induction k with
  | zero => rfl
  | succ k ih => exact ih

/-- A decimal is laid out with digits before and behind its point; those before it are its leading
digits, or a zero. -/
structure Around (d : Scaled) (front back : List Char) : Prop where
  eq : around d = (front, back)
  front_ne_nil : front ≠ []
  back_ne_nil : back ≠ []
  isDigit_front : ∀ c ∈ front, Decimal.isDigit c = true
  isDigit_back : ∀ c ∈ back, Decimal.isDigit c = true
  value_eq : value (front ++ back) = d.digits
  length_eq : -(back.length : Int) = d.exponent
  begins : front = ['0'] ∨ front <+: digits d.digits

theorem Around.pointedText_eq {d : Scaled} (h : Around d front back) (wholeMark : Bool) :
    pointedText wholeMark d = front ++ '.' :: back := by
  obtain ⟨c, cs, rfl⟩ := List.exists_cons_of_ne_nil h.back_ne_nil
  rw [pointedText, h.eq]

/-- A decimal with digits behind the point is laid out around it. -/
theorem exists_around {d : Scaled} (h : d.exponent < 0) : ∃ front back, Around d front back := by
  have hdigit : ∀ c ∈ digits d.digits, Decimal.isDigit c = true := fun c =>
    Decimal.isDigit_of_mem_digits
  have haround : around d =
      if (-d.exponent).toNat < (digits d.digits).length then
        ((digits d.digits).take ((digits d.digits).length - (-d.exponent).toNat),
          (digits d.digits).drop ((digits d.digits).length - (-d.exponent).toNat))
      else (['0'], List.replicate ((-d.exponent).toNat - (digits d.digits).length) '0' ++
        digits d.digits) := by
    rw [around, if_neg (Int.not_le.2 h)]
  by_cases hplaces : (-d.exponent).toNat < (digits d.digits).length
  · rw [if_pos hplaces] at haround
    have hlength : ((digits d.digits).drop
        ((digits d.digits).length - (-d.exponent).toNat)).length = (-d.exponent).toNat := by
      rw [List.length_drop]
      omega
    refine ⟨_, _, haround, ?_, ?_, ?_, ?_, ?_, ?_, .inr (List.take_prefix _ _)⟩
    · exact List.ne_nil_of_length_pos (by rw [List.length_take]; omega)
    · exact List.ne_nil_of_length_pos (by omega)
    · exact fun c hc => hdigit c (List.mem_of_mem_take hc)
    · exact fun c hc => hdigit c (List.mem_of_mem_drop hc)
    · rw [List.take_append_drop, Decimal.value_digits]
    · omega
  · rw [if_neg hplaces] at haround
    refine ⟨_, _, haround, List.cons_ne_nil _ _, ?_, ?_, ?_, ?_, ?_, .inl rfl⟩
    · exact List.append_ne_nil_of_right_ne_nil _ (Decimal.digits_ne_nil _)
    · exact fun c hc => List.mem_singleton.1 hc ▸ rfl
    · intro c hc
      rcases List.mem_append.1 hc with hc | hc
      · exact List.eq_of_mem_replicate hc ▸ rfl
      · exact hdigit c hc
    · exact (value_zeros_append (_ + 1) _).trans (Decimal.value_digits _)
    · rw [List.length_append, List.length_replicate]
      omega

/-- A decimal that is rounded to a double is read as the double from the digits around its point. -/
theorem Around.pointedText {d : Scaled} (h : Around d front back) (hm : Canonical m q)
    (hpos : 0 < m) (hrounds : RoundsTo (d.digits * 10 ^ d.exponent) m q) (wholeMark : Bool) :
    PointedText (pointedText wholeMark d) m q front back := by
  refine ⟨h.pointedText_eq wholeMark, h.front_ne_nil, h.isDigit_front, h.isDigit_back, ?_⟩
  rw [h.value_eq, h.length_eq]
  exact Double.nearestDouble_of_roundsTo hm hpos hrounds

theorem exists_pointedText_shortest (hm : Canonical m q) (hwhole : isWhole m q = false) :
    ∃ front back, PointedText (pointedText false (shortest .up m q)) m q front back := by
  have hpos : 0 < m := by
    rcases Nat.eq_zero_or_pos m with rfl | hpos
    · simp [isWhole] at hwhole
    · exact hpos
  have hrounds := Double.roundsTo_of_readsBack hpos (Double.readsBack_shortest hm hpos .up)
  generalize shortest .up m q = d at hrounds
  have hexponent : d.exponent < 0 := by
    by_contra hnonneg
    obtain ⟨k, hk⟩ := Int.eq_ofNat_of_zero_le (Int.not_lt.1 hnonneg)
    have hnat : ((d.digits : ℚ) * 10 ^ d.exponent) = ((d.digits * 10 ^ k : Nat) : ℚ) := by
      rw [hk]
      push_cast
      rw [zpow_natCast]
    rw [hnat] at hrounds
    rw [isWhole_of_roundsTo hrounds] at hwhole
    cases hwhole
  obtain ⟨front, back, haround⟩ := exists_around hexponent
  exact ⟨front, back, haround.pointedText hm hpos hrounds false⟩

end

/-! ## Reading back -/

/-- The text of a double is digits with a point among them, and it is read as the double. -/
structure ReadsBack (x : Float) : Prop where
  spelled : ∃ negative front back, front ≠ [] ∧
    (∀ c ∈ front, Decimal.isDigit c = true) ∧ (∀ c ∈ back, Decimal.isDigit c = true) ∧
    (Decimal.markedText x).toList = signed negative (front ++ '.' :: back)
  read : Decimal.readDouble? (Decimal.markedText x).toList = some x

theorem exists_toList_markedText {x : Float} {negative : Bool} {m : Nat} {q : Int}
    (hparts : Decimal.parts x = .finite negative m q) (hm : Canonical m q) :
    ∃ body front back, (Decimal.markedText x).toList = signed negative body ∧
      PointedText body m q front back := by
  rw [Decimal.markedText, hparts]
  simp only
  split
  next hwhole =>
    refine ⟨_, _, _, ?_, pointedText_whole hm hwhole⟩
    rw [String.toList_ofList]
    rfl
  next hwhole =>
    obtain ⟨front, back, hpointed⟩ := exists_pointedText_shortest hm (Bool.eq_false_iff.2 hwhole)
    refine ⟨_, front, back, ?_, hpointed⟩
    simp only [Decimal.plainText, hparts, Decimal.Style.text?]
    exact String.toList_ofList

/-- Every finite double is read back from its text. -/
theorem readsBack_of_isFinite {x : Float} (h : x.isFinite = true) : ReadsBack x := by
  obtain ⟨negative, m, q, hparts, hm, hx⟩ := Double.exists_parts h
  obtain ⟨body, front, back, htext, hpointed⟩ := exists_toList_markedText hparts hm
  have hread := hpointed.readDouble? hm negative
  obtain ⟨rfl, hne, hfront, hback, -⟩ := hpointed
  refine ⟨⟨negative, front, back, hne, hfront, hback, htext⟩, ?_⟩
  rw [htext, hread, ← hx]

end Conditioning.Literal
