import Conditioning.Proofs.Literal.Doubles
import Conditioning.Proofs.Report.Grammar

/-!
# The text of a number in a report

A natural number is written with its digits, and a finite double as its shortest
decimal, with a point among the digits or with a power of ten behind them.  Either
is a number of the grammar, and its value is the number that was written
(`ofNumber?_naturalText`, `exists_text?_eq`); a double is never taken for a natural
number, since there is always a point or a power of ten in it.
-/

namespace Conditioning.Json

open Decimal (Scaled digits digitChar value nearestDouble shortest readDouble? pointedText
  exponentText)
open Double (Canonical RoundsTo ofParts)
open Literal (PointedText signed)
open PhaseText (IsDigits OptionalPower PowerText)

/-! ## Digits -/

theorem isDigits_digits (n : Nat) : IsDigits (digits n) :=
  ⟨Decimal.digits_ne_nil n, fun _ => Decimal.isDigit_of_mem_digits⟩

/-- Only the digits of zero begin with a zero. -/
theorem eq_zero_of_head?_digits {n : Nat} (h : (digits n).head? = some '0') : n = 0 := by
  have hdigit : ∀ d < 10, digitChar d = '0' → d = 0 := by decide
  induction n using Nat.strongRecOn with
  | ind n ih =>
    rw [digits] at h
    split at h
    next hlt => exact hdigit n hlt (Option.some.inj h)
    next hge =>
      rw [List.head?_append_of_ne_nil _ (Decimal.digits_ne_nil _)] at h
      have hzero := ih (n / 10) (by omega) h
      omega

theorem digits_zero : digits 0 = ['0'] := by
  rw [digits]
  rfl

theorem isWhole_digits (n : Nat) : IsWhole (digits n) :=
  ⟨isDigits_digits n, fun h => eq_zero_of_head?_digits h ▸ digits_zero⟩

theorem isWhole_zero : IsWhole ['0'] :=
  digits_zero ▸ isWhole_digits 0

/-- What begins like the digits of a positive number has no zero in front. -/
theorem IsWhole.of_head?_eq {n : Nat} (hpos : 0 < n) {ds : List Char} (hds : IsDigits ds)
    (h : ds.head? = (digits n).head?) : IsWhole ds := by
  refine ⟨hds, fun hzero => ?_⟩
  have := eq_zero_of_head?_digits (h.symm.trans hzero)
  omega

theorem value_append_zeros (ds : List Char) (k : Nat) :
    value (ds ++ List.replicate k '0') = value ds * 10 ^ k := by
  induction k with
  | zero => simp
  | succ k ih =>
    rw [List.replicate_succ', ← List.append_assoc, Decimal.value_append_singleton, ih, Nat.pow_succ]
    show 10 * (value ds * 10 ^ k) + 0 = _
    ring

/-- The digits of a natural number say the number. -/
theorem ofNumber?_digits (n : Nat) : ofNumber? (digits n) = some (.natural n) := by
  rw [ofNumber?, if_pos (List.all_eq_true.2 (isDigits_digits n).isDigit), Decimal.value_digits]

theorem isNumber_digits (n : Nat) : IsNumber (digits n) := by
  have h := IsNumber.mk false (isWhole_digits n) .absent .absent
  rwa [List.append_nil, List.append_nil] at h

/-! ## Doubles -/

/-- A number that is read as a double, whatever its sign, and is more than digits. -/
structure SpellsDouble (body : List Char) (m : Nat) (q : Int) : Prop where
  isNumber (negative : Bool) : IsNumber (signed negative body)
  mark : ∃ c ∈ body, Decimal.isDigit c = false
  read (negative : Bool) : readDouble? (signed negative body) = some (ofParts negative m q)

section

variable {body front back : List Char} {d : Scaled} {m : Nat} {q : Int}

theorem SpellsDouble.ofNumber?_eq (h : SpellsDouble body m q) (negative : Bool) :
    ofNumber? (signed negative body) = some (.number (ofParts negative m q)) := by
  obtain ⟨c, hmem, hc⟩ := h.mark
  have hmem' : c ∈ signed negative body := by
    cases negative with
    | true => exact List.mem_cons_of_mem _ hmem
    | false => exact hmem
  have hall : (signed negative body).all Decimal.isDigit = false :=
    List.all_eq_false.2 ⟨c, hmem', by simp [hc]⟩
  rw [ofNumber?, if_neg (by simp [hall]), h.read negative]
  rfl

/-- Digits around a point. -/
theorem SpellsDouble.of_pointedText (h : PointedText body m q front back) (hm : Canonical m q)
    (hfront : IsWhole front) (hback : back ≠ []) : SpellsDouble body m q := by
  refine ⟨fun negative => ?_, ⟨'.', ?_, rfl⟩, h.readDouble? hm⟩
  · have hnumber := IsNumber.mk negative hfront (.present ⟨hback, h.isDigit_back⟩) .absent
    rwa [List.append_nil, ← h.eq] at hnumber
  · rw [h.eq]
    exact List.mem_append_right _ List.mem_cons_self

theorem spellsDouble_zero (q : Int) (hm : Canonical 0 q) : SpellsDouble ['0', '.', '0'] 0 q := by
  have hpointed : PointedText ['0', '.', '0'] 0 q ['0'] ['0'] := by
    refine ⟨rfl, List.cons_ne_nil _ _, fun c hc => List.mem_singleton.1 hc ▸ rfl,
      fun c hc => List.mem_singleton.1 hc ▸ rfl, ?_⟩
    rw [nearestDouble, if_pos (.inl rfl)]
    exact Literal.zero_eq_ofParts q
  exact .of_pointedText hpointed hm isWhole_zero (List.cons_ne_nil _ _)

/-- A decimal with its point behind all of its digits. -/
theorem pointedText_whole (hexponent : 0 ≤ d.exponent) (hm : Canonical m q) (hpos : 0 < m)
    (hrounds : RoundsTo (d.digits * 10 ^ d.exponent) m q) :
    PointedText (pointedText true d) m q
      (digits d.digits ++ List.replicate d.exponent.toNat '0') ['0'] := by
  have haround : Decimal.around d =
      (digits d.digits ++ List.replicate d.exponent.toNat '0', []) := by
    rw [Decimal.around, if_pos hexponent]
  have hvalue : value (digits d.digits ++ List.replicate d.exponent.toNat '0' ++ ['0']) =
      d.digits * 10 ^ (d.exponent.toNat + 1) := by
    rw [List.append_assoc, ← List.replicate_succ', value_append_zeros, Decimal.value_digits]
  have hsame : ((d.digits * 10 ^ (d.exponent.toNat + 1) : Nat) : ℚ) *
      10 ^ (-((['0'].length : Nat) : Int)) = d.digits * 10 ^ d.exponent := by
    obtain ⟨k, hk⟩ := Int.eq_ofNat_of_zero_le hexponent
    rw [hk, Int.toNat_natCast, zpow_natCast]
    push_cast
    norm_num
    ring
  refine ⟨?_, ?_, fun c hc => ?_, fun c hc => List.mem_singleton.1 hc ▸ rfl, ?_⟩
  · rw [pointedText, haround]
    rfl
  · exact List.append_ne_nil_of_left_ne_nil (Decimal.digits_ne_nil _) _
  · rcases List.mem_append.1 hc with hc | hc
    · exact Decimal.isDigit_of_mem_digits hc
    · exact List.eq_of_mem_replicate hc ▸ rfl
  · rw [hvalue]
    refine Double.nearestDouble_of_roundsTo hm hpos ?_
    rwa [hsame]

/-- A decimal in positional digits. -/
theorem spellsDouble_pointedText (hm : Canonical m q) (hpos : 0 < m) (hdigits : 0 < d.digits)
    (hrounds : RoundsTo (d.digits * 10 ^ d.exponent) m q) :
    SpellsDouble (pointedText true d) m q := by
  rcases Int.lt_or_le d.exponent 0 with hexponent | hexponent
  · obtain ⟨front, back, haround⟩ := Literal.exists_around hexponent
    have hfront : IsDigits front := ⟨haround.front_ne_nil, haround.isDigit_front⟩
    refine .of_pointedText (haround.pointedText hm hpos hrounds true) hm ?_ haround.back_ne_nil
    rcases haround.begins with rfl | ⟨tail, htail⟩
    · exact isWhole_zero
    · refine .of_head?_eq hdigits hfront ?_
      rw [← htail, List.head?_append_of_ne_nil _ haround.front_ne_nil]
  · have hpointed := pointedText_whole hexponent hm hpos hrounds
    refine .of_pointedText hpointed hm (.of_head?_eq hdigits ⟨hpointed.ne_nil,
      hpointed.isDigit_front⟩ ?_) (List.cons_ne_nil _ _)
    rw [List.head?_append_of_ne_nil _ (Decimal.digits_ne_nil _)]

/-- The power of ten behind a decimal. -/
def powerOf (size : Int) : List Char :=
  'e' :: (if size < 0 then '-' else '+') :: digits size.natAbs

theorem powerText_powerOf (size : Int) : PowerText (powerOf size) size := by
  have hvalue : (value (digits size.natAbs) : Int) = size.natAbs := by rw [Decimal.value_digits]
  rw [powerOf]
  by_cases hneg : size < 0
  · have h := PowerText.minus (.inl rfl : 'e' = 'e' ∨ _) (isDigits_digits size.natAbs)
    rw [hvalue, show -(size.natAbs : Int) = size by omega] at h
    rwa [if_pos hneg]
  · have h := PowerText.plus (.inl rfl : 'e' = 'e' ∨ _) (isDigits_digits size.natAbs)
    rw [hvalue, show (size.natAbs : Int) = size by omega] at h
    rwa [if_neg hneg]

theorem exponentText_eq {c : Char} {cs : List Char} (h : digits d.digits = c :: cs) :
    exponentText d =
      [c] ++ ((if cs = [] then [] else '.' :: cs) ++ powerOf (d.exponent + cs.length)) := by
  rw [exponentText, h]
  cases cs <;> rfl

/-- A decimal with a power of ten. -/
theorem spellsDouble_exponentText (hm : Canonical m q) (hpos : 0 < m) (hdigits : 0 < d.digits)
    (hrounds : RoundsTo (d.digits * 10 ^ d.exponent) m q) :
    SpellsDouble (exponentText d) m q := by
  have hnearest := Double.nearestDouble_of_roundsTo hm hpos hrounds
  have hsign (negative : Bool) : some (if negative then -ofParts false m q else ofParts false m q) =
      some (ofParts negative m q) := by
    cases negative with
    | true => rw [if_pos rfl, Literal.neg_ofParts hm]
    | false => rfl
  obtain ⟨c, cs, hcs⟩ := List.exists_cons_of_ne_nil (Decimal.digits_ne_nil d.digits)
  have hall := (isDigits_digits d.digits).isDigit
  have hvalue := Decimal.value_digits d.digits
  rw [hcs] at hall hvalue
  have hwhole : IsWhole [c] := by
    refine .of_head?_eq hdigits ⟨List.cons_ne_nil _ _, fun c' hc' => ?_⟩ (hcs ▸ rfl)
    exact hall c' (List.mem_singleton.1 hc' ▸ List.mem_cons_self)
  have hpower := powerText_powerOf (d.exponent + cs.length)
  rw [exponentText_eq hcs]
  by_cases hcs' : cs = []
  · subst hcs'
    rw [if_pos rfl]
    refine ⟨fun negative => ?_, ?_, fun negative => ?_⟩
    · exact .mk negative hwhole .absent (.present hpower)
    · exact ⟨'e', List.mem_cons_of_mem _ List.mem_cons_self, rfl⟩
    · rw [List.nil_append, PhaseText.NumberText.readDouble?_powered negative hwhole.toIsDigits
        hpower, hvalue, List.length_nil, Int.natCast_zero, Int.add_zero, hnearest, hsign]
  · rw [if_neg hcs']
    have hfraction : IsDigits cs := ⟨hcs', fun c' hc' => hall c' (List.mem_cons_of_mem c hc')⟩
    refine ⟨fun negative => ?_, ?_, fun negative => ?_⟩
    · exact .mk negative hwhole (.present hfraction) (.present hpower)
    · exact ⟨'.', List.mem_cons_of_mem _ List.mem_cons_self, rfl⟩
    · have hread := Literal.readDouble?_signed negative
        (List.cons_ne_nil c cs : [c] ++ cs ≠ []) hwhole.isDigit hfraction.isDigit
        (OptionalPower.present hpower).head?_not_digit hpower.readPower?_eq rfl
      rw [show [c] ++ cs = c :: cs from rfl, hvalue, Int.add_sub_cancel, hnearest, hsign] at hread
      exact hread

theorem scaledText_cases (d : Scaled) :
    numberStyle.scaledText d = pointedText true d ∨ numberStyle.scaledText d = exponentText d := by
  simp only [Decimal.Style.scaledText, numberStyle]
  exact ite_eq_or_eq _ _ _

end

/-- A finite double is written as a number whose value is the double. -/
theorem exists_text?_eq {x : Float} (h : x.isFinite = true) : ∃ word,
    numberStyle.text? x = some (String.ofList word) ∧ IsNumber word ∧
      ofNumber? word = some (.number x) := by
  obtain ⟨negative, m, q, hparts, hm, rfl⟩ := Double.exists_parts h
  have hspells : SpellsDouble (numberStyle.scaledText (shortest numberStyle.tie m q)) m q := by
    rcases Nat.eq_zero_or_pos m with rfl | hpos
    · have hzero : numberStyle.scaledText (shortest numberStyle.tie 0 q) = ['0', '.', '0'] := by
        rw [shortest, if_pos rfl]
        simp [Decimal.Style.scaledText, numberStyle, digits_zero, pointedText, Decimal.around]
      rw [hzero]
      exact spellsDouble_zero q hm
    · have hrounds := Double.roundsTo_of_readsBack hpos (Double.readsBack_shortest hm hpos .even)
      have hdigits := hrounds.digits_pos hm hpos
      rcases scaledText_cases (shortest .even m q) with htext | htext
      · exact htext ▸ spellsDouble_pointedText hm hpos hdigits hrounds
      · exact htext ▸ spellsDouble_exponentText hm hpos hdigits hrounds
  refine ⟨_, ?_, hspells.isNumber negative, hspells.ofNumber?_eq negative⟩
  rw [Decimal.Style.text?, hparts]
  rfl

end Conditioning.Json
