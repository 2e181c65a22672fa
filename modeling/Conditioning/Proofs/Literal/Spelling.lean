import Conditioning.Proofs.Literal.Sequence

/-!
# Numbers and texts, written out

Digits are taken as far as they go, so a number that is nothing but the
characters of a number is read to its end, and a text in quotes without escapes
is read as it stands.  A text that holds one value and blanks is that value; with
more behind it, it is refused.
-/

namespace Conditioning.Literal

/-! ## Digits -/

theorem isSpace_eq_false_of_isDigit {c : Char} (h : Decimal.isDigit c = true) :
    isSpace c = false := by
  rw [Bool.eq_false_iff]
  intro hspace
  simp only [isSpace, Bool.or_eq_true, beq_iff_eq] at hspace
  rcases hspace with ((rfl | rfl) | rfl) | rfl <;> cases h

theorem ne_point_of_isDigit {c : Char} (h : Decimal.isDigit c = true) : c ≠ '.' := by
  rintro rfl
  cases h

theorem numeral_digits {ds : List Char} (h : ∀ c ∈ ds, Decimal.isDigit c = true)
    (isDecimal : Bool) (cs : List Char) :
    numeral isDecimal true (ds ++ cs) =
      { numeral isDecimal true cs with text := ds ++ (numeral isDecimal true cs).text } := by
  induction ds with
  | nil => rfl
  | cons d ds ih =>
    rw [List.cons_append, numeral_digit (h d List.mem_cons_self),
      ih fun c hc => h c (List.mem_cons_of_mem d hc)]
    rfl

/-- The digits of a number go on to the end of their text. -/
theorem numeral_of_digits {ds : List Char} (h : ∀ c ∈ ds, Decimal.isDigit c = true)
    (isDecimal : Bool) : numeral isDecimal true ds = ⟨ds, isDecimal, true, []⟩ := by
  have happend := numeral_digits h isDecimal []
  rw [List.append_nil] at happend
  rw [happend]
  simp [numeral]

/-- Digits are taken up to the first other character. -/
theorem takeDigits_append {ds rest : List Char} (h : ∀ c ∈ ds, Decimal.isDigit c = true)
    (hrest : ∀ c ∈ rest.head?, Decimal.isDigit c = false) :
    Decimal.takeDigits (ds ++ rest) = (ds, rest) := by
  have hstop : rest.takeWhile Decimal.isDigit = [] ∧ rest.dropWhile Decimal.isDigit = rest := by
    cases rest with
    | nil => exact ⟨rfl, rfl⟩
    | cons c rest => simp [hrest c rfl]
  rw [Decimal.takeDigits, List.takeWhile_append_of_pos h, List.dropWhile_append_of_pos h,
    hstop.1, hstop.2, List.append_nil]

theorem takeDigits_of_digits {ds : List Char} (h : ∀ c ∈ ds, Decimal.isDigit c = true) :
    Decimal.takeDigits ds = (ds, []) := by
  have happend : Decimal.takeDigits (ds ++ []) = (ds, []) :=
    takeDigits_append h fun _ hc => nomatch hc
  rwa [List.append_nil] at happend

theorem takeSign_of_ne {c : Char} (hplus : c ≠ '+') (hminus : c ≠ '-') (cs : List Char) :
    Decimal.takeSign (c :: cs) = (false, c :: cs) := by
  rw [Decimal.takeSign.eq_def]
  split
  next h => cases h; exact absurd rfl hplus
  next h => cases h; exact absurd rfl hminus
  next => rfl

theorem ne_sign_of_isDigit {c : Char} (h : Decimal.isDigit c = true) : c ≠ '+' ∧ c ≠ '-' := by
  constructor
  · rintro rfl
    cases h
  · rintro rfl
    cases h

theorem takeSign_of_digit {d : Char} (h : Decimal.isDigit d = true) (ds : List Char) :
    Decimal.takeSign (d :: ds) = (false, d :: ds) :=
  takeSign_of_ne (ne_sign_of_isDigit h).1 (ne_sign_of_isDigit h).2 ds

/-! ## Signs -/

/-- A number with a minus in front, if there is one. -/
def signed (negative : Bool) (body : List Char) : List Char :=
  if negative then '-' :: body else body

theorem takeSign_signed (negative : Bool) {c : Char} (hplus : c ≠ '+') (hminus : c ≠ '-')
    (cs : List Char) : Decimal.takeSign (signed negative (c :: cs)) = (negative, c :: cs) := by
  cases negative with
  | true => rfl
  | false => exact takeSign_of_ne hplus hminus cs

/-- The integer that digits stand for. -/
theorem readInteger?_signed (negative : Bool) {ds : List Char} (hne : ds ≠ [])
    (h : ∀ c ∈ ds, Decimal.isDigit c = true) :
    Decimal.readInteger? (signed negative ds) =
      some (if negative then -(Decimal.value ds : Int) else Decimal.value ds) := by
  obtain ⟨d, rest, rfl⟩ := List.exists_cons_of_ne_nil hne
  obtain ⟨hplus, hminus⟩ := ne_sign_of_isDigit (h d List.mem_cons_self)
  rw [Decimal.readInteger?, takeSign_signed negative hplus hminus]
  simp only [takeDigits_of_digits h]

theorem readInteger?_of_digits {ds : List Char} (hne : ds ≠ [])
    (h : ∀ c ∈ ds, Decimal.isDigit c = true) :
    Decimal.readInteger? ds = some (Decimal.value ds : Int) :=
  readInteger?_signed false hne h

/-- What is read from digits, a point and more digits, with a power of ten behind them or none. -/
theorem readDouble?_signed (negative : Bool) {front back power : List Char} {e : Int} {x : Float}
    (hne : front ++ back ≠ []) (hfront : ∀ c ∈ front, Decimal.isDigit c = true)
    (hback : ∀ c ∈ back, Decimal.isDigit c = true)
    (hstop : ∀ c ∈ power.head?, Decimal.isDigit c = false)
    (hpower : Decimal.readPower? power = some e)
    (hx : Decimal.nearestDouble (Decimal.value (front ++ back)) (e - back.length) = x) :
    Decimal.readDouble? (signed negative (front ++ '.' :: (back ++ power))) =
      some (if negative then -x else x) := by
  have hsign : Decimal.takeSign (signed negative (front ++ '.' :: (back ++ power))) =
      (negative, front ++ '.' :: (back ++ power)) := by
    cases front with
    | nil => exact takeSign_signed negative (by decide) (by decide) _
    | cons d ds =>
      obtain ⟨hplus, hminus⟩ := ne_sign_of_isDigit (hfront d List.mem_cons_self)
      exact takeSign_signed negative hplus hminus _
  have hwhole : Decimal.takeDigits (front ++ '.' :: (back ++ power)) =
      (front, '.' :: (back ++ power)) := by
    refine takeDigits_append hfront fun c hc => ?_
    cases hc
    rfl
  obtain ⟨d, ds, hds⟩ := List.exists_cons_of_ne_nil hne
  rw [hds] at hx
  simp only [Decimal.readDouble?, hsign, hwhole, Decimal.takeFraction,
    takeDigits_append hback hstop, hds, hpower, hx]

/-! ## Numbers -/

/-- A text that is a number from its first character to its last. -/
theorem HasValue.of_numeral {c : Char} {cs : List Char} {isDecimal : Bool} {value : Literal}
    (hstart : startsNumber c = true)
    (hnumeral : numeral (c == '.') (Decimal.isDigit c) cs = ⟨cs, isDecimal, true, []⟩)
    (hvalue : ofNumeral (c :: cs) isDecimal = .ok value) : HasValue (c :: cs) value [] := by
  have hspace : isSpace c = false := by
    rw [Bool.eq_false_iff]
    intro hspace
    simp only [isSpace, Bool.or_eq_true, beq_iff_eq] at hspace
    rcases hspace with ((rfl | rfl) | rfl) | rfl <;> cases hstart
  have hdigit : (numeral (c == '.') (Decimal.isDigit c) cs).hasDigit = true := by rw [hnumeral]
  have hread : ofNumeral (c :: (numeral (c == '.') (Decimal.isDigit c) cs).text)
      (numeral (c == '.') (Decimal.isDigit c) cs).isDecimal = .ok value := by
    rw [hnumeral]
    exact hvalue
  have h := HasValue.number (skipSpace_cons hspace cs) hstart hdigit hread
  rwa [hnumeral] at h

theorem startsNumber_of_digit {d : Char} (h : Decimal.isDigit d = true) :
    startsNumber d = true := by
  simp [startsNumber, h]

/-- A number that begins with a digit. -/
theorem HasValue.of_digit {isDecimal : Bool} {d : Char} {ds : List Char} {value : Literal}
    (hdigit : Decimal.isDigit d = true)
    (hnumeral : numeral false true ds = ⟨ds, isDecimal, true, []⟩)
    (hvalue : ofNumeral (d :: ds) isDecimal = .ok value) : HasValue (d :: ds) value [] := by
  refine .of_numeral (startsNumber_of_digit hdigit) ?_ hvalue
  rw [beq_eq_false_iff_ne.2 (ne_point_of_isDigit hdigit), hdigit, hnumeral]

/-- A number that begins with a minus and a digit. -/
theorem HasValue.of_minus {isDecimal : Bool} {d : Char} {ds : List Char} {value : Literal}
    (hdigit : Decimal.isDigit d = true)
    (hnumeral : numeral false true ds = ⟨ds, isDecimal, true, []⟩)
    (hvalue : ofNumeral ('-' :: d :: ds) isDecimal = .ok value) :
    HasValue ('-' :: d :: ds) value [] := by
  refine .of_numeral rfl ?_ hvalue
  show numeral false false (d :: ds) = _
  rw [numeral_digit hdigit, hnumeral]
  rfl

/-! ## Texts in quotes -/

theorem quoted_of_plain {quote : Char} (hquote : quote = '\'' ∨ quote = '"') {cs : List Char}
    (h : ∀ c ∈ cs, c ≠ quote ∧ c ≠ '\\' ∧ c ≠ '\n') :
    quoted quote (cs ++ [quote]) = some (cs, []) := by
  induction cs with
  | nil => rcases hquote with rfl | rfl <;> rfl
  | cons c cs ih =>
    obtain ⟨hne, hescape, hline⟩ := h c List.mem_cons_self
    rw [List.cons_append, quoted_cons hescape hline hne,
      ih fun c' hc' => h c' (List.mem_cons_of_mem c hc')]
    rfl

theorem HasValue.of_plain {quote : Char} (hquote : quote = '\'' ∨ quote = '"') {text : String}
    (h : ∀ c ∈ text.toList, c ≠ quote ∧ c ≠ '\\' ∧ c ≠ '\n') :
    HasValue (quote :: (text.toList ++ [quote])) (str text) [] := by
  have hspace : isSpace quote = false := by rcases hquote with rfl | rfl <;> rfl
  have hvalue := HasValue.quoted (skipSpace_cons hspace _) hquote (quoted_of_plain hquote h)
  rwa [String.ofList_toList] at hvalue

/-! ## Brackets -/

/-- A closing bracket does not stand before a value. -/
theorem HasValue.eat?_eq_none {closing : Char} {text rest : List Char} {value : Literal}
    (h : HasValue text value rest)
    (hclosing : closing = ']' ∨ closing = ')' ∨ closing = '\x7d') : eat? closing text = none := by
  obtain ⟨c, cs, hskip, hne⟩ := h.exists_skipSpace_eq
  refine Literal.eat?_eq_none hskip ?_
  rcases hclosing with rfl | rfl | rfl
  · exact hne.1
  · exact hne.2.1
  · exact hne.2.2.1

/-- Items with a comma at their end are a tuple. -/
theorem ofParenthesised_comma (items : List Literal) :
    ofParenthesised items true = tuple items := by
  rw [ofParenthesised.eq_def]
  split
  next hcomma => cases hcomma
  next => rfl

/-- Two items or more are a tuple. -/
theorem ofParenthesised_many {items : List Literal} (h : 1 < items.length) (comma : Bool) :
    ofParenthesised items comma = tuple items := by
  rw [ofParenthesised.eq_def]
  split
  next => exact absurd h (Nat.lt_irrefl 1)
  next => rfl

/-! ## Whole texts -/

theorem parse_of_hasValue {input : String} {value : Literal} {rest : List Char}
    (h : HasValue input.toList value rest) (hrest : skipSpace rest = []) :
    parse input = .ok value := by
  obtain ⟨taken, hread, hvalue, rfl⟩ := reads_of_hasValue h
  rw [parse, hread]
  simp only [hrest, hvalue]
  rfl

/-- What a text holds is what it begins with. -/
theorem exists_hasValue_of_parse {input : String} {value : Literal}
    (h : parse input = .ok value) : ∃ rest, HasValue input.toList value rest := by
  rw [parse] at h
  split at h
  next => cases h
  next taken hread =>
    split at h
    next =>
      cases h
      exact ⟨taken.rest, reads_iff.1 ⟨taken, hread, rfl, rfl⟩⟩
    next => cases h

/-- A value with something behind it is refused. -/
theorem parse_of_hasValue_cons {input : String} {value : Literal} {rest cs : List Char} {c : Char}
    (h : HasValue input.toList value rest) (hrest : skipSpace rest = c :: cs) :
    ∃ misread, parse input = .error misread := by
  obtain ⟨taken, hread, -, rfl⟩ := reads_of_hasValue h
  rw [parse, hread]
  simp only [hrest]
  exact ⟨_, rfl⟩

end Conditioning.Literal
