import Conditioning.Proofs.Literal.Spelling
import Conditioning.Proofs.Phase.Spelling

/-!
# Reading counts and probabilities

The counts and the probabilities that a phase is put together from.  Each of them
begins and ends with a character other than a blank, holds none of the signs around
it, and is read as what it stands for (`CountText.positive?_eq`,
`ProbabilityText.probability?_eq`).  An integer that does not fit is no number, so
neither is a fraction with it (`probability?_of_overflow`).
-/

namespace Conditioning

namespace PhaseText

open Literal (HasValue Parted)
open Text (IsGap Solid beside)

/-! ## Characters -/

/-- The characters of a number. -/
def isNumeric (c : Char) : Bool :=
  Decimal.isDigit c || ['.', 'e', 'E', '+', '-'].contains c

theorem isNumeric_of_isDigit {c : Char} (h : Decimal.isDigit c = true) : isNumeric c = true := by
  rw [isNumeric, h]
  rfl

theorem isBlank_eq_false_of_isDigit {c : Char} (h : Decimal.isDigit c = true) :
    Text.isBlank c = false := by
  simp only [Decimal.isDigit, Bool.and_eq_true, decide_eq_true_eq, Char.le_def] at h
  have hlower : 48 ≤ c.toNat := h.1
  have hupper : c.toNat ≤ 57 := h.2
  simp only [Text.isBlank, Bool.or_eq_false_iff, Bool.and_eq_false_iff, decide_eq_false_iff_not,
    beq_eq_false_iff_ne]
  omega

theorem isBlank_eq_false_of_isNumeric {c : Char} (h : isNumeric c = true) :
    Text.isBlank c = false := by
  rcases Bool.or_eq_true_iff.1 h with h | h
  · exact isBlank_eq_false_of_isDigit h
  · simp only [List.contains_eq_mem, List.mem_cons, List.not_mem_nil, or_false,
      decide_eq_true_eq] at h
    rcases h with rfl | rfl | rfl | rfl | rfl <;> rfl

/-! ## Numbers -/

namespace IsDigits

variable {ds : List Char}

theorem of_all (hne : ds ≠ []) (h : ds.all Decimal.isDigit = true) : IsDigits ds :=
  ⟨hne, List.all_eq_true.1 h⟩

theorem solid (h : IsDigits ds) : Solid ds :=
  .of_forall h.ne_nil fun c hc => isBlank_eq_false_of_isDigit (h.isDigit c hc)

end IsDigits

namespace CountText

variable {ds : List Char} {n : Nat}

theorem not_mem (h : CountText ds n) {c : Char} (hc : isMark c = true) : c ∉ ds := by
  intro hmem
  have hdigit := h.digits.isDigit c hmem
  simp only [isMark, List.contains_eq_mem, List.mem_cons, List.not_mem_nil, or_false,
    decide_eq_true_eq] at hc
  rcases hc with rfl | rfl | rfl | rfl | rfl | rfl | rfl | rfl | rfl <;> cases hdigit

theorem positive?_eq (h : CountText ds n) : positive? ds = some n := by
  have hread : Decimal.readBelow? 4294967296 ds = some n := by
    rw [Decimal.readBelow?.eq_def]
    split
    next =>
      have := h.digits.isDigit '-' List.mem_cons_self
      cases this
    next =>
      rw [Literal.readInteger?_of_digits h.digits.ne_nil h.digits.isDigit, h.value]
      simp only [Int.toNat_natCast]
      rw [if_pos h.lt]
  rw [positive?, hread]
  exact if_pos h.pos

end CountText

namespace PowerText

variable {power : List Char} {e : Int}

theorem begins (h : PowerText power e) : ∃ c cs, power = c :: cs ∧ (c = 'e' ∨ c = 'E') := by
  cases h with
  | unsigned hc => exact ⟨_, _, rfl, hc⟩
  | plus hc => exact ⟨_, _, rfl, hc⟩
  | minus hc => exact ⟨_, _, rfl, hc⟩

/-- A power of ten belongs to the number before it. -/
theorem numeral_eq (h : PowerText power e) (isDecimal : Bool) :
    Literal.numeral isDecimal true power = ⟨power, true, true, []⟩ := by
  cases h with
  | @unsigned c ds hc hds =>
    obtain ⟨d, rest, rfl⟩ := List.exists_cons_of_ne_nil hds.ne_nil
    obtain ⟨hplus, hminus⟩ := Literal.ne_sign_of_isDigit (hds.isDigit d List.mem_cons_self)
    rw [Literal.numeral_power hc]
    split
    next h => cases h; exact absurd rfl hplus
    next h => cases h; exact absurd rfl hminus
    next =>
      rw [Literal.numeral_of_digits hds.isDigit]
      rfl
  | plus hc hds =>
    rw [Literal.numeral_power hc]
    simp only [Literal.numeral_of_digits hds.isDigit]
    rfl
  | minus hc hds =>
    rw [Literal.numeral_power hc]
    simp only [Literal.numeral_of_digits hds.isDigit]
    rfl

theorem readPower?_eq (h : PowerText power e) : Decimal.readPower? power = some e := by
  cases h with
  | @unsigned c ds hc hds =>
    obtain ⟨d, rest, rfl⟩ := List.exists_cons_of_ne_nil hds.ne_nil
    rw [Decimal.readPower?, if_pos hc,
      Literal.takeSign_of_digit (hds.isDigit d List.mem_cons_self)]
    simp only [Literal.takeDigits_of_digits hds.isDigit]
    rfl
  | @plus c ds hc hds =>
    obtain ⟨d, rest, rfl⟩ := List.exists_cons_of_ne_nil hds.ne_nil
    rw [Decimal.readPower?, if_pos hc]
    simp only [Decimal.takeSign, Literal.takeDigits_of_digits hds.isDigit]
    rfl
  | @minus c ds hc hds =>
    obtain ⟨d, rest, rfl⟩ := List.exists_cons_of_ne_nil hds.ne_nil
    rw [Decimal.readPower?, if_pos hc]
    simp only [Decimal.takeSign, Literal.takeDigits_of_digits hds.isDigit]
    rfl

theorem isNumeric (h : PowerText power e) : ∀ c ∈ power, isNumeric c = true := by
  have hletter {c : Char} (hc : c = 'e' ∨ c = 'E') : PhaseText.isNumeric c = true := by
    rcases hc with rfl | rfl <;> rfl
  cases h with
  | unsigned hc hds =>
    intro c' h'
    rcases List.mem_cons.1 h' with rfl | h'
    · exact hletter hc
    · exact isNumeric_of_isDigit (hds.isDigit c' h')
  | plus hc hds =>
    intro c' h'
    rcases List.mem_cons.1 h' with rfl | h'
    · exact hletter hc
    rcases List.mem_cons.1 h' with rfl | h'
    · rfl
    · exact isNumeric_of_isDigit (hds.isDigit c' h')
  | minus hc hds =>
    intro c' h'
    rcases List.mem_cons.1 h' with rfl | h'
    · exact hletter hc
    rcases List.mem_cons.1 h' with rfl | h'
    · rfl
    · exact isNumeric_of_isDigit (hds.isDigit c' h')

end PowerText

namespace OptionalPower

variable {power : List Char} {e : Int}

theorem numeral_eq (h : OptionalPower power e) :
    Literal.numeral true true power = ⟨power, true, true, []⟩ := by
  cases h with
  | absent => rfl
  | present h => exact h.numeral_eq true

/-- Digits with a power of ten behind them are the rest of a number. -/
theorem numeral_append (h : OptionalPower power e) {ds : List Char}
    (hds : ∀ c ∈ ds, Decimal.isDigit c = true) :
    Literal.numeral true true (ds ++ power) = ⟨ds ++ power, true, true, []⟩ := by
  rw [Literal.numeral_digits hds, h.numeral_eq]

theorem readPower?_eq (h : OptionalPower power e) : Decimal.readPower? power = some e := by
  cases h with
  | absent => rfl
  | present h => exact h.readPower?_eq

theorem isNumeric (h : OptionalPower power e) : ∀ c ∈ power, isNumeric c = true := by
  cases h with
  | absent => exact fun _ hc => nomatch hc
  | present h => exact h.isNumeric

/-- The digits before a power of ten end there. -/
theorem head?_not_digit (h : OptionalPower power e) :
    ∀ c ∈ power.head?, Decimal.isDigit c = false := by
  cases h with
  | absent => exact fun _ hc => nomatch hc
  | present h =>
    obtain ⟨c, cs, rfl, hc⟩ := h.begins
    intro c' hc'
    cases hc'
    rcases hc with rfl | rfl <;> rfl

end OptionalPower

namespace NumberText

variable {cs : List Char} {x : Float}

theorem isNumeric (h : NumberText cs x) : ∀ c ∈ cs, isNumeric c = true := by
  cases h with
  | integer hds => exact fun c hc => isNumeric_of_isDigit (hds.isDigit c hc)
  | @pointed front back power e hdigits hpower =>
    intro c hc
    rcases List.mem_append.1 hc with hc | hc
    · exact isNumeric_of_isDigit (hdigits.isDigit c (List.mem_append_left _ hc))
    rcases List.mem_cons.1 hc with rfl | hc
    · rfl
    rcases List.mem_append.1 hc with hc | hc
    · exact isNumeric_of_isDigit (hdigits.isDigit c (List.mem_append_right _ hc))
    · exact hpower.isNumeric c hc
  | powered hfront hpower =>
    intro c hc
    rcases List.mem_append.1 hc with hc | hc
    · exact isNumeric_of_isDigit (hfront.isDigit c hc)
    · exact hpower.isNumeric c hc

theorem ne_nil (h : NumberText cs x) : cs ≠ [] := by
  cases h with
  | integer hds => exact hds.ne_nil
  | pointed => simp
  | powered hfront => exact fun h => hfront.ne_nil (List.append_eq_nil_iff.1 h).1

theorem solid (h : NumberText cs x) : Solid cs :=
  .of_forall h.ne_nil fun c hc => isBlank_eq_false_of_isNumeric (h.isNumeric c hc)

theorem not_mem (h : NumberText cs x) {c : Char} (hc : PhaseText.isNumeric c = false) : c ∉ cs := by
  intro hmem
  rw [h.isNumeric c hmem] at hc
  cases hc

/-- What is read from digits and a power of ten. -/
theorem readDouble?_powered (negative : Bool) {front power : List Char} {e : Int}
    (hfront : IsDigits front) (hpower : PowerText power e) :
    Decimal.readDouble? (Literal.signed negative (front ++ power)) =
      some (if negative then -Decimal.nearestDouble (Decimal.value front) e
        else Decimal.nearestDouble (Decimal.value front) e) := by
  obtain ⟨d, rest, rfl⟩ := List.exists_cons_of_ne_nil hfront.ne_nil
  have hsign : Decimal.takeSign (Literal.signed negative (d :: rest ++ power)) =
      (negative, d :: rest ++ power) := by
    obtain ⟨hplus, hminus⟩ := Literal.ne_sign_of_isDigit (hfront.isDigit d List.mem_cons_self)
    exact Literal.takeSign_signed negative hplus hminus _
  have hwhole : Decimal.takeDigits (d :: rest ++ power) = (d :: rest, power) :=
    Literal.takeDigits_append hfront.isDigit (OptionalPower.present hpower).head?_not_digit
  have hfraction : Decimal.takeFraction power = ([], power) := by
    obtain ⟨c, cs, rfl, hc⟩ := hpower.begins
    rcases hc with rfl | rfl <;> rfl
  simp only [Decimal.readDouble?, hsign, hwhole, hfraction, hpower.readPower?_eq]
  simp

theorem ofNumeral_of_readDouble? {text : List Char} {x : Float}
    (h : Decimal.readDouble? text = some x) : Literal.ofNumeral text true = .ok (.float x) := by
  rw [Literal.ofNumeral, h]
  rfl

/-- A number is read as its value. -/
theorem hasValue (h : NumberText cs x) : ∃ value, HasValue cs value [] ∧
    value.asNumber? = some x := by
  cases h with
  | @integer ds hds hfits =>
    obtain ⟨d, rest, rfl⟩ := List.exists_cons_of_ne_nil hds.ne_nil
    have hvalue : Literal.ofNumeral (d :: rest) false =
        .ok (.int (Int64.ofInt (Decimal.value (d :: rest)))) := by
      have hlower : -Literal.integerBound ≤ (Decimal.value (d :: rest) : Int) := by
        rw [Literal.integerBound]
        omega
      simp only [Literal.ofNumeral, Literal.readInteger?_of_digits hds.ne_nil hds.isDigit]
      rw [if_neg Bool.false_ne_true, if_pos ⟨hlower, hfits⟩]
    have hrest : ∀ c ∈ rest, Decimal.isDigit c = true := fun c hc =>
      hds.isDigit c (List.mem_cons_of_mem d hc)
    exact ⟨_, .of_digit (hds.isDigit d List.mem_cons_self)
      (Literal.numeral_of_digits hrest false) hvalue, rfl⟩
  | @pointed front back power e hdigits hpower =>
    have hfront : ∀ c ∈ front, Decimal.isDigit c = true := fun c hc =>
      hdigits.isDigit c (List.mem_append_left _ hc)
    have hback : ∀ c ∈ back, Decimal.isDigit c = true := fun c hc =>
      hdigits.isDigit c (List.mem_append_right _ hc)
    have hread : Decimal.readDouble? (front ++ '.' :: (back ++ power)) =
        some (Decimal.nearestDouble (Decimal.value (front ++ back)) (e - back.length)) :=
      Literal.readDouble?_signed false hdigits.ne_nil hfront hback hpower.head?_not_digit
        hpower.readPower?_eq rfl
    have hvalue := ofNumeral_of_readDouble? hread
    cases front with
    | nil =>
      obtain ⟨d, rest, rfl⟩ := List.exists_cons_of_ne_nil hdigits.ne_nil
      refine ⟨_, .of_numeral rfl ?_ hvalue, rfl⟩
      show Literal.numeral true false (d :: (rest ++ power)) = _
      rw [Literal.numeral_digit (hback d List.mem_cons_self),
        hpower.numeral_append fun c hc => hback c (List.mem_cons_of_mem d hc)]
      rfl
    | cons d rest =>
      refine ⟨_, .of_digit (hfront d List.mem_cons_self) ?_ hvalue, rfl⟩
      show Literal.numeral false true (rest ++ '.' :: (back ++ power)) = _
      rw [Literal.numeral_digits fun c hc => hfront c (List.mem_cons_of_mem d hc),
        Literal.numeral_point, hpower.numeral_append hback]
      rfl
  | @powered front power e hfront hpower =>
    have hvalue := ofNumeral_of_readDouble? (readDouble?_powered false hfront hpower)
    obtain ⟨d, rest, rfl⟩ := List.exists_cons_of_ne_nil hfront.ne_nil
    refine ⟨_, .of_digit (hfront.isDigit d List.mem_cons_self) ?_ hvalue, rfl⟩
    show Literal.numeral false true (rest ++ power) = _
    rw [Literal.numeral_digits fun c hc => hfront.isDigit c (List.mem_cons_of_mem d hc),
      hpower.numeral_eq]
    rfl

end NumberText

/-! ## Probabilities -/

theorem NumberText.number?_eq {cs : List Char} {x : Float} (h : NumberText cs x) :
    number? cs = some x := by
  obtain ⟨value, hvalue, hnumber⟩ := h.hasValue
  rw [← String.toList_ofList (l := cs)] at hvalue
  rw [number?, Literal.parse_of_hasValue hvalue rfl]
  exact hnumber

theorem parted_of_isGap {gap : List Char} (hgap : IsGap gap) {c : Char}
    (hc : Literal.isWordChar c = false ∧ c ≠ '.' ∧ c ≠ '+' ∧ c ≠ '-') (cs : List Char) :
    Parted (gap ++ c :: cs) := by
  cases gap with
  | nil => exact .cons hc cs
  | cons d gap =>
    have hspace := hgap d List.mem_cons_self
    simp only [Literal.isSpace, Bool.or_eq_true, beq_iff_eq] at hspace
    rcases hspace with ((rfl | rfl) | rfl) | rfl <;> exact .cons (by decide) _

/-- A fraction is not a number. -/
theorem number?_fraction {cs ds after before : List Char} {x : Float} (h : NumberText cs x)
    (hafter : IsGap after) : number? (beside '/' cs after before ds) = none := by
  obtain ⟨value, hvalue, -⟩ := h.hasValue
  have hvalue' := hvalue.append (parted_of_isGap hafter (c := '/') (by decide) (before ++ ds))
  have hskip : Literal.skipSpace (after ++ '/' :: (before ++ ds)) = '/' :: (before ++ ds) := by
    rw [Literal.skipSpace_append hafter, Literal.skipSpace_cons rfl]
  rw [← String.toList_ofList (l := cs ++ (after ++ '/' :: (before ++ ds)))] at hvalue'
  obtain ⟨misread, hmisread⟩ := Literal.parse_of_hasValue_cons hvalue' hskip
  rw [number?, beside, hmisread]

namespace ProbabilityText

variable {cs : List Char} {p : Float}

theorem solid (h : ProbabilityText cs p) : Solid cs := by
  cases h with
  | number h => exact h.solid
  | fraction hx _ _ hy => exact hx.solid.beside hy.solid

theorem not_mem (h : ProbabilityText cs p) {c : Char} (hspace : Literal.isSpace c = false)
    (hnumeric : isNumeric c = false) (hne : c ≠ '/') : c ∉ cs := by
  cases h with
  | number h => exact h.not_mem hnumeric
  | fraction hx hafter hbefore hy =>
    exact Text.not_mem_beside hspace hne (hx.not_mem hnumeric) (hy.not_mem hnumeric) hafter hbefore

theorem probability?_eq (h : ProbabilityText cs p) (hunit : 0.0 ≤ p ∧ p ≤ 1.0) :
    probability? cs = some p := by
  cases h with
  | number h =>
    rw [probability?, h.number?_eq]
    exact if_pos hunit
  | fraction hx hafter hbefore hy hne =>
    rw [probability?, number?_fraction hx hafter, Option.none_or, fraction?,
      Text.cut_beside rfl (hx.not_mem rfl) hafter]
    simp only [hx.solid.trim_append hafter, hy.solid.trim_gap_append hbefore, hx.number?_eq,
      hy.number?_eq, hne]
    exact if_pos hunit

end ProbabilityText

/-! ## Integers that do not fit -/

/-- An integer that does not fit 64 bits is no number, whatever follows it. -/
theorem number?_of_overflow {ds tail : List Char} (hds : IsDigits ds)
    (hlarge : Literal.integerBound ≤ (Decimal.value ds : Int)) (htail : Parted tail) :
    number? (ds ++ tail) = none := by
  obtain ⟨d, rest, rfl⟩ := List.exists_cons_of_ne_nil hds.ne_nil
  have hdigit := hds.isDigit d List.mem_cons_self
  have hrest : ∀ c ∈ rest, Decimal.isDigit c = true := fun c hc =>
    hds.isDigit c (List.mem_cons_of_mem d hc)
  have hnumeral : Literal.numeral (d == '.') (Decimal.isDigit d) (rest ++ tail) =
      ⟨rest, false, true, tail⟩ := by
    rw [beq_eq_false_iff_ne.2 (Literal.ne_point_of_isDigit hdigit), hdigit,
      Literal.numeral_append htail, Literal.numeral_of_digits hrest]
    rfl
  have hrefused : Literal.ofNumeral (d :: rest) false =
      .error (.outOfRange (String.ofList (d :: rest))) := by
    simp only [Literal.ofNumeral, Literal.readInteger?_of_digits hds.ne_nil hds.isDigit]
    rw [if_neg Bool.false_ne_true, if_neg fun h => Int.not_lt.2 hlarge h.2]
  have hskip : Literal.skipSpace (d :: rest ++ tail) = d :: (rest ++ tail) :=
    Literal.skipSpace_cons (Literal.isSpace_eq_false_of_isDigit hdigit) _
  rw [number?]
  cases hparse : Literal.parse (String.ofList (d :: rest ++ tail)) with
  | error misread => rfl
  | ok value =>
    obtain ⟨after, hvalue⟩ := Literal.exists_hasValue_of_parse hparse
    rw [String.toList_ofList] at hvalue
    obtain ⟨hquote, hlist, hparenthesis, hbrace⟩ :=
      Literal.ne_of_startsNumber (Literal.startsNumber_of_digit hdigit)
    cases hvalue with
    | quoted hs h =>
      cases hskip.symm.trans hs
      exact absurd h hquote
    | list hs => cases hskip.symm.trans hs; exact absurd rfl hlist
    | parenthesised hs => cases hskip.symm.trans hs; exact absurd rfl hparenthesis
    | dict hs => cases hskip.symm.trans hs; exact absurd rfl hbrace
    | number hs _ _ hvalue =>
      cases hskip.symm.trans hs
      rw [hnumeral, hrefused] at hvalue
      cases hvalue
    | constant hs hletter =>
      cases hskip.symm.trans hs
      exact absurd (Literal.startsNumber_of_digit hdigit) (Literal.ne_of_capital hletter).2.2.2.2

/-- A fraction whose upper number does not fit is no probability. -/
theorem probability?_of_overflow {ds tail : List Char} (hds : IsDigits ds)
    (hlarge : Literal.integerBound ≤ (Decimal.value ds : Int)) :
    probability? (ds ++ '/' :: tail) = none := by
  have hslash : '/' ∉ ds := fun hmem => by cases hds.isDigit _ hmem
  have hupper : number? ds = none := by
    have h := number?_of_overflow hds hlarge .nil
    rwa [List.append_nil] at h
  rw [probability?, number?_of_overflow hds hlarge (.cons (by decide) tail), fraction?,
    Text.cut_of_not_mem hslash]
  simp only [hds.solid.trim_eq, hupper]
  rfl

end PhaseText

end Conditioning
