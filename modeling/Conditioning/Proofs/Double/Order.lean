import Conditioning.Proofs.Double.Packing

/-!
# Doubles compared

Doubles are not ordered, since a value that is no number compares with nothing.
Those that are zero or more are: of two of them one is less, or the other is at
most as great (`Double.lt_of_not_le`).  Their sums are zero or more again, a sum
that is too great being infinite (`Double.nonneg_add`).

Two doubles are equal if they are the same number, the two zeros being equal.  So
equality goes from one to another and back (`Double.beq_comm`, `Double.beq_trans`),
and a double that is not equal to itself is no number (`Double.beq_self_iff`).
-/

namespace Conditioning

namespace Double

open Float.Model (Format)
open Float.Model.UnpackedFloat

/-! ## Comparing parts -/

theorem nonnegative_iff (x : Float.Model.UnpackedFloat) :
    Float.Model.UnpackedFloat.le (.zero .positive) x = true ↔ Nonnegative x := by
  constructor
  · intro h
    cases x with
    | infinity sign =>
      cases sign with
      | positive => exact .infinity
      | negative => cases h
    | notANumber => cases h
    | zero sign => exact .zero sign
    | finite sign m e hm =>
      cases sign with
      | positive => exact .finite m e hm
      | negative => cases h
  · intro h
    cases h <;> rfl

/-- Of two values that are not negative, one is less or the other is at most as great. -/
theorem compare_eq_lt_of_not_le {x y : Float.Model.UnpackedFloat} (hx : Nonnegative x)
    (hy : Nonnegative y) (h : Float.Model.UnpackedFloat.le y x = false) :
    Float.Model.UnpackedFloat.lt x y = true := by
  cases hx with
  | zero sign =>
    cases hy with
    | zero sign' => cases h
    | finite m e hm => rfl
    | infinity => rfl
  | infinity =>
    cases hy with
    | zero sign => cases h
    | finite m e hm => cases h
    | infinity => cases h
  | finite m e hm =>
    cases hy with
    | zero sign => cases h
    | infinity => rfl
    | finite m' e' hm' =>
      -- the powers are compared first, then the significands, and the other way round alike
      have hgreater : ((compare e' e).then (compare m' m)).isLE = false := h
      have hless : (compare e e').then (compare m m') = .lt := by
        rw [← Int.compare_swap e' e, ← Nat.compare_swap m' m, ← Ordering.swap_then]
        cases hcompare : (compare e' e).then (compare m' m) with
        | gt => rfl
        | lt => rw [hcompare] at hgreater; cases hgreater
        | eq => rw [hcompare] at hgreater; cases hgreater
      show (some ((compare e e').then (compare m m')) == some Ordering.lt) = true
      rw [hless]
      rfl

/-- Compared the other way round, two values are in the opposite order. -/
theorem compare_swap (x y : Float.Model.UnpackedFloat) :
    y.compare x = (x.compare y).map Ordering.swap := by
  have hmagnitude (e e' : Int) (m m' : Nat) :
      (compare e' e).then (compare m' m) = ((compare e e').then (compare m m')).swap := by
    rw [← Int.compare_swap e e', ← Nat.compare_swap m m', Ordering.swap_then]
  cases x with
  | notANumber => cases y <;> rfl
  | zero sign =>
    cases y with
    | finite sign' => cases sign' <;> rfl
    | infinity sign' => cases sign' <;> rfl
    | _ => rfl
  | infinity sign =>
    cases y with
    | infinity sign' => cases sign <;> cases sign' <;> rfl
    | notANumber => cases sign <;> rfl
    | zero sign' => cases sign <;> rfl
    | finite sign' => cases sign <;> rfl
  | finite sign m e hm =>
    cases y with
    | notANumber => rfl
    | infinity sign' => cases sign' <;> rfl
    | zero sign' => cases sign <;> rfl
    | finite sign' m' e' hm' =>
      cases sign <;> cases sign'
      · exact congrArg (fun o => some (Ordering.swap o)) (hmagnitude e e' m m')
      · rfl
      · rfl
      · exact congrArg some (hmagnitude e e' m m')

/-! ## Adding parts -/

theorem nonnegative_roundWithAccuracy (m : Nat) (e : Int) (accuracy : Accuracy) :
    Nonnegative (roundWithAccuracy Format.binary64 .positive m e accuracy) := by
  have hrounded (m : Nat) (e : Int) : Nonnegative
      (if h : m = 0 then .zero .positive else .finite .positive m e (Nat.pos_of_ne_zero h)) := by
    by_cases h : m = 0
    · rw [dif_pos h]
      exact .zero _
    · rw [dif_neg h]
      exact .finite _ _ _
  exact hrounded _ _

theorem nonnegative_normalize {n : Int} (h : 0 ≤ n) (e : Int) :
    Nonnegative (Float.Model.UnpackedFloat.normalize Format.binary64 n e .positive) := by
  rw [Float.Model.UnpackedFloat.normalize]
  split
  next hlt => exact absurd (Int.compare_eq_lt.1 hlt) (Int.not_lt.2 h)
  next => exact .zero _
  next => exact nonnegative_roundWithAccuracy _ _ _

theorem nonnegative_add {x y : Float.Model.UnpackedFloat} (hx : Nonnegative x)
    (hy : Nonnegative y) : Nonnegative (add Format.binary64 x y) := by
  cases hx with
  | zero sign =>
    cases hy with
    | zero sign' => cases sign <;> cases sign' <;> exact .zero _
    | finite m e hm => exact .finite m e hm
    | infinity => exact .infinity
  | infinity => cases hy <;> exact .infinity
  | finite m e hm =>
    cases hy with
    | zero sign => exact .finite m e hm
    | infinity => exact .infinity
    | finite m' e' hm' =>
      have hnonneg := Int.add_nonneg (Int.natCast_nonneg (m <<< (e - min e e').toNat))
        (Int.natCast_nonneg (m' <<< (e' - min e e').toNat))
      exact nonnegative_normalize hnonneg (min e e')

/-! ## Doubles -/

theorem zero_le_iff (x : Float) : 0.0 ≤ x ↔ Nonnegative x.toModel.unpack := by
  rw [← nonnegative_iff]
  show decide (_ = true) = true ↔ _
  rw [decide_eq_true_iff]
  rfl

/-- A sum of doubles that are not negative is not negative, and so is no value without order. -/
theorem nonneg_add {x y : Float} (hx : 0.0 ≤ x) (hy : 0.0 ≤ y) : 0.0 ≤ x + y := by
  rw [zero_le_iff] at *
  exact nonnegative_unpack_pack (nonnegative_add hx hy)

/-- Doubles that are not negative are ordered. -/
theorem lt_of_not_le {x y : Float} (hx : 0.0 ≤ x) (hy : 0.0 ≤ y) (h : ¬y ≤ x) : x < y := by
  rw [zero_le_iff] at hx hy
  have hle : Float.Model.UnpackedFloat.le y.toModel.unpack x.toModel.unpack = false :=
    Bool.eq_false_iff.2 fun hle => h (decide_eq_true hle)
  exact decide_eq_true (compare_eq_lt_of_not_le hx hy hle)

/-- What is at most as great is not greater. -/
theorem not_lt_of_le {x y : Float} (h : x ≤ y) : ¬y < x := by
  intro hlt
  have hle : (x.toModel.unpack.compare y.toModel.unpack).any (·.isLE) = true := of_decide_eq_true h
  have hgreater : (y.toModel.unpack.compare x.toModel.unpack == some .lt) = true :=
    of_decide_eq_true hlt
  rw [compare_swap, beq_iff_eq] at hgreater
  cases hcompare : x.toModel.unpack.compare y.toModel.unpack with
  | none =>
    rw [hcompare] at hgreater
    cases hgreater
  | some order =>
    rw [hcompare] at hle hgreater
    cases order with
    | gt => cases hle
    | lt => cases hgreater
    | eq => cases hgreater

/-! ## Equal doubles -/

/-- Two values are equal if both are zero, whatever their signs, or if they are the same number. -/
theorem compare_eq_eq_iff {x y : Float.Model.UnpackedFloat} :
    x.compare y = some .eq ↔
      (∃ sign sign', x = .zero sign ∧ y = .zero sign') ∨ x = y ∧ x ≠ .notANumber := by
  constructor
  · intro h
    cases x with
    | notANumber => cases h
    | zero sign =>
      cases y with
      | zero sign' => exact .inl ⟨sign, sign', rfl, rfl⟩
      | notANumber => cases h
      | infinity sign' => cases sign' <;> cases h
      | finite sign' => cases sign' <;> cases h
    | infinity sign =>
      cases y with
      | infinity sign' =>
        cases sign <;> cases sign'
        · exact .inr ⟨rfl, nofun⟩
        · cases h
        · cases h
        · exact .inr ⟨rfl, nofun⟩
      | notANumber => cases sign <;> cases h
      | zero sign' => cases sign <;> cases h
      | finite sign' => cases sign <;> cases h
    | finite sign m e hm =>
      cases y with
      | notANumber => cases h
      | zero sign' => cases sign <;> cases h
      | infinity sign' => cases sign' <;> cases h
      | finite sign' m' e' hm' =>
        have hparts (h : (compare e e').then (compare m m') = .eq) : e = e' ∧ m = m' := by
          obtain ⟨he, hm⟩ := Ordering.then_eq_eq.1 h
          exact ⟨Int.compare_eq_eq.1 he, Nat.compare_eq_eq.1 hm⟩
        cases sign <;> cases sign'
        · obtain ⟨rfl, rfl⟩ := hparts (Ordering.swap_eq_eq.1 (Option.some.inj h))
          exact .inr ⟨rfl, nofun⟩
        · cases h
        · cases h
        · obtain ⟨rfl, rfl⟩ := hparts (Option.some.inj h)
          exact .inr ⟨rfl, nofun⟩
  · rintro (⟨sign, sign', rfl, rfl⟩ | ⟨rfl, hnumber⟩)
    · rfl
    · cases x with
      | notANumber => exact absurd rfl hnumber
      | zero sign => rfl
      | infinity sign => cases sign <;> rfl
      | finite sign m e hm =>
        have hsame : (compare e e).then (compare m m) = .eq := by
          rw [Int.compare_eq_eq.2 rfl, Nat.compare_eq_eq.2 rfl]
          rfl
        cases sign
        · exact congrArg (fun o => some (Ordering.swap o)) hsame
        · exact congrArg some hsame

theorem beq_iff (x y : Float) :
    (x == y) = true ↔ x.toModel.unpack.compare y.toModel.unpack = some .eq := by
  show (x.toModel.unpack.compare y.toModel.unpack == some .eq) = true ↔ _
  rw [beq_iff_eq]

theorem beq_comm (x y : Float) : (x == y) = (y == x) := by
  rw [Bool.eq_iff_iff, beq_iff, beq_iff, compare_swap x.toModel.unpack]
  cases x.toModel.unpack.compare y.toModel.unpack with
  | none => exact Iff.rfl
  | some order => cases order <;> simp

theorem beq_trans {x y z : Float} (hxy : (x == y) = true) (hyz : (y == z) = true) :
    (x == z) = true := by
  rw [beq_iff, compare_eq_eq_iff] at *
  obtain ⟨sign, sign', hx, hy⟩ | ⟨hxy, hnumber⟩ := hxy
  · obtain ⟨_, sign'', -, hz⟩ | ⟨hyz, -⟩ := hyz
    · exact .inl ⟨sign, sign'', hx, hz⟩
    · exact .inl ⟨sign, sign', hx, hyz ▸ hy⟩
  · rwa [hxy]

/-- A double is equal to itself just if it is a number. -/
theorem beq_self_iff (x : Float) : (x == x) = true ↔ x.isNaN = false := by
  rw [beq_iff, compare_eq_eq_iff]
  show _ ↔ x.toModel.unpack.isNaN = false
  cases x.toModel.unpack with
  | notANumber => exact iff_of_false (by simp) nofun
  | zero sign => exact iff_of_true (.inl ⟨sign, sign, rfl, rfl⟩) rfl
  | finite | infinity => exact iff_of_true (.inr ⟨rfl, nofun⟩) rfl

end Double

end Conditioning
