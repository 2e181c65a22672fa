import Conditioning.Proofs.Literal.Spelling
import Conditioning.Proofs.Phase.Spelling

/-!
# Reading names

The names that a phase is put together from, in quotes or not.  Each of them begins
and ends with a character other than a blank, holds none of the signs around it, and
is read as what it stands for (`NameText.withoutQuotes_eq`).  No name is a count
(`NameText.positive?_eq_none`).
-/

namespace Conditioning

namespace PhaseText

open Literal (HasValue)
open Text (Solid)

/-! ## Characters -/

/-- Letters are the capital and the small ones of ASCII. -/
theorem isAlpha_iff (c : Char) : c.isAlpha = true ↔
    (65 ≤ c.toNat ∧ c.toNat ≤ 90) ∨ (97 ≤ c.toNat ∧ c.toNat ≤ 122) := by
  show (decide (c.val ≥ 65 ∧ c.val ≤ 90) || (decide (c.val ≥ 97) && decide (c.val ≤ 122))) = true ↔ _
  simp only [Bool.or_eq_true, Bool.and_eq_true, decide_eq_true_eq, ge_iff_le,
    UInt32.le_iff_toNat_le]
  exact Iff.rfl

/-- Letters, digits and underscores are neither blanks nor marks. -/
theorem not_blank_of_isAlphanum {c : Char} (h : (c.isAlphanum || c == '_') = true) :
    Text.isBlank c = false ∧ isMark c = false := by
  have hrange : (48 ≤ c.toNat ∧ c.toNat ≤ 57) ∨ (65 ≤ c.toNat ∧ c.toNat ≤ 90) ∨
      c.toNat = 95 ∨ (97 ≤ c.toNat ∧ c.toNat ≤ 122) := by
    simp only [Char.isAlphanum, Char.isDigit, Bool.or_eq_true, Bool.and_eq_true,
      decide_eq_true_eq, beq_iff_eq, ge_iff_le, UInt32.le_iff_toNat_le, isAlpha_iff] at h
    rcases h with ((h | h) | h) | rfl
    · exact .inr (.inl h)
    · exact .inr (.inr (.inr h))
    · exact .inl h
    · exact .inr (.inr (.inl rfl))
  constructor
  · simp only [Text.isBlank, Bool.or_eq_false_iff, Bool.and_eq_false_iff, decide_eq_false_iff_not,
      beq_eq_false_iff_ne]
    omega
  · rw [Bool.eq_false_iff]
    intro hmark
    simp only [isMark, List.contains_eq_mem, List.mem_cons, List.not_mem_nil, or_false,
      decide_eq_true_eq] at hmark
    rcases hmark with rfl | rfl | rfl | rfl | rfl | rfl | rfl | rfl | rfl <;>
      exact absurd hrange (by decide)

/-! ## Names -/

/-- Identifiers are names. -/
theorem isName_of_isIdentifier {name : String} (h : isIdentifier name = true) : IsName name := by
  rw [isIdentifier] at h
  cases hname : name.toList with
  | nil =>
    rw [hname] at h
    cases h
  | cons c cs =>
    simp only [hname, Bool.and_eq_true, List.all_eq_true] at h
    obtain ⟨hletter, hrest⟩ := h
    have hall : ∀ d ∈ c :: cs, (d.isAlphanum || d == '_') = true := by
      intro d hd
      rcases List.mem_cons.1 hd with rfl | hd
      · simp [Char.isAlphanum, hletter]
      · exact hrest d hd
    refine ⟨hname ▸ List.cons_ne_nil c cs, ?_, ?_, ?_⟩
    · exact hname ▸ fun d hd => (not_blank_of_isAlphanum (hall d hd)).1
    · exact hname ▸ fun d hd => (not_blank_of_isAlphanum (hall d hd)).2
    · intro d hd
      rw [hname] at hd
      cases hd
      constructor
      · rw [Bool.eq_false_iff]
        intro hdigit
        rw [isAlpha_iff] at hletter
        simp only [Decimal.isDigit, Bool.and_eq_true, decide_eq_true_eq, Char.le_def,
          UInt32.le_iff_toNat_le] at hdigit
        have hupper : c.val.toNat ≤ 57 := hdigit.2
        rcases hletter with h | h
        · exact absurd (Nat.le_trans h.1 hupper) (by decide)
        · exact absurd (Nat.le_trans h.1 hupper) (by decide)
      · rintro rfl
        cases hletter

namespace IsName

variable {name : String}

theorem not_mem (h : IsName name) {c : Char} (hc : isMark c = true) : c ∉ name.toList := by
  intro hmem
  rw [h.not_mark c hmem] at hc
  cases hc

theorem solid (h : IsName name) : Solid name.toList :=
  .of_forall h.ne_nil h.not_blank

/-- A name has no quotes to remove. -/
theorem withoutQuotes_eq (h : IsName name) : withoutQuotes name.toList = name.toList := by
  refine List.filter_eq_self.2 fun c hc => ?_
  have hsingle : c ≠ '\'' := by
    rintro rfl
    exact h.not_mem rfl hc
  have hdouble : c ≠ '"' := by
    rintro rfl
    exact h.not_mem rfl hc
  simp [hsingle, hdouble]

theorem exists_eq_cons (h : IsName name) :
    ∃ c cs, name.toList = c :: cs ∧ Text.isBlank c = false ∧ isMark c = false ∧
      Decimal.isDigit c = false ∧ c ≠ '+' := by
  obtain ⟨c, cs, hcs⟩ := List.exists_cons_of_ne_nil h.ne_nil
  have hmem : c ∈ name.toList := hcs ▸ List.mem_cons_self
  obtain ⟨hdigit, hplus⟩ := h.begins c (by rw [hcs]; rfl)
  exact ⟨c, cs, hcs, h.not_blank c hmem, h.not_mark c hmem, hdigit, hplus⟩

end IsName

/-! ## Names in quotes -/

theorem isBlank_quote {quote : Char} (h : quote = '\'' ∨ quote = '"') :
    Text.isBlank quote = false := by
  rcases h with rfl | rfl <;> rfl

namespace QuotedName

variable {cs : List Char} {name : String}

theorem solid (h : QuotedName cs name) : Solid cs := by
  obtain ⟨hquote, name⟩ := h
  exact .enclosed (isBlank_quote hquote) (isBlank_quote hquote) _

theorem not_mem (h : QuotedName cs name) (hname : IsName name) {c : Char} (hc : isMark c = true)
    (hsingle : c ≠ '\'') (hdouble : c ≠ '"') : c ∉ cs := by
  obtain ⟨hquote, name⟩ := h
  have hmem := hname.not_mem hc
  rcases hquote with rfl | rfl <;> simp [hmem, hsingle, hdouble]

theorem hasValue (h : QuotedName cs name) (hname : IsName name) : HasValue cs (.str name) [] := by
  obtain ⟨hquote, name⟩ := h
  refine .of_plain hquote fun c hc => ?_
  refine ⟨?_, ?_, ?_⟩
  · rintro rfl
    refine hname.not_mem ?_ hc
    rcases hquote with rfl | rfl <;> rfl
  · rintro rfl
    exact hname.not_mem rfl hc
  · rintro rfl
    cases hname.not_blank _ hc

end QuotedName

namespace NameText

variable {cs : List Char} {name : String}

theorem solid (h : NameText cs name) (hname : IsName name) : Solid cs := by
  cases h with
  | bare => exact hname.solid
  | quoted h => exact h.solid

theorem not_mem (h : NameText cs name) (hname : IsName name) {c : Char} (hc : isMark c = true)
    (hsingle : c ≠ '\'') (hdouble : c ≠ '"') : c ∉ cs := by
  cases h with
  | bare => exact hname.not_mem hc
  | quoted h => exact h.not_mem hname hc hsingle hdouble

theorem withoutQuotes_eq (h : NameText cs name) (hname : IsName name) :
    withoutQuotes cs = name.toList := by
  cases h with
  | bare => exact hname.withoutQuotes_eq
  | quoted h =>
    obtain ⟨hquote, name⟩ := h
    have hfilter : withoutQuotes name.toList = name.toList := hname.withoutQuotes_eq
    rw [withoutQuotes] at hfilter
    rcases hquote with rfl | rfl <;> simp [withoutQuotes, hfilter]

/-- A name is no count. -/
theorem positive?_eq_none (h : NameText cs name) (hname : IsName name) : positive? cs = none := by
  have hfirst : ∃ c rest, cs = c :: rest ∧ Decimal.isDigit c = false ∧ c ≠ '+' := by
    cases h with
    | bare =>
      obtain ⟨c, rest, hcs, -, -, hdigit, hplus⟩ := hname.exists_eq_cons
      exact ⟨c, rest, hcs, hdigit, hplus⟩
    | quoted h =>
      obtain ⟨hquote, name⟩ := h
      refine ⟨_, _, rfl, ?_, ?_⟩ <;> rcases hquote with rfl | rfl <;> decide
  obtain ⟨c, rest, rfl, hdigit, hplus⟩ := hfirst
  have hnone : Decimal.readBelow? 4294967296 (c :: rest) = none := by
    rw [Decimal.readBelow?.eq_def]
    split
    next => rfl
    next hminus =>
      have hne : c ≠ '-' := by
        rintro rfl
        exact hminus rest rfl
      have hread : Decimal.readInteger? (c :: rest) = none := by
        rw [Decimal.readInteger?, Literal.takeSign_of_ne hplus hne]
        simp [Decimal.takeDigits, hdigit]
      rw [hread]
  rw [positive?, hnone]

end NameText

end PhaseText

end Conditioning
