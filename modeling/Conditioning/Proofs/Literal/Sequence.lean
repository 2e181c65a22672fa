import Conditioning.Proofs.Literal.Grammar

/-!
# Texts one after the other

A value does not depend on what comes after it, as long as that does not go on
with a character of a number or a word (`Parted`).  Every other value ends in a
mark of its own.  So a value is read in the same way whatever follows a blank
(`HasValue.append`).

The values of two texts with a blank between them are those of the first and
then those of the second, and a text is refused for the reason and at the place
that its second part alone is refused (`parseSequence_append`).  So it does not
matter how the arguments of a block are spread over its lines.
-/

namespace Conditioning.Literal

/-! ## Parted texts -/

/-- The text does not go on with a character of a number or a word. -/
def Parted (tail : List Char) : Prop :=
  ∀ c ∈ tail.head?, isWordChar c = false ∧ c ≠ '.' ∧ c ≠ '+' ∧ c ≠ '-'

theorem Parted.nil : Parted [] := by
  intro c h
  cases h

theorem Parted.cons {c : Char} (h : isWordChar c = false ∧ c ≠ '.' ∧ c ≠ '+' ∧ c ≠ '-')
    (cs : List Char) : Parted (c :: cs) := by
  intro c' h'
  cases h'
  exact h

theorem isDigit_eq_false_of_isWordChar {c : Char} (h : isWordChar c = false) :
    Decimal.isDigit c = false := by
  simp only [isWordChar, Bool.or_eq_false_iff] at h
  exact h.1.1.1

/-! ## Numbers -/

theorem numeral_digit {c : Char} (h : Decimal.isDigit c = true) (isDecimal hasDigit : Bool)
    (cs : List Char) :
    numeral isDecimal hasDigit (c :: cs) = (numeral isDecimal true cs).push c := by
  rw [numeral.eq_def]
  exact if_pos h

theorem numeral_point (hasDigit : Bool) (cs : List Char) :
    numeral false hasDigit ('.' :: cs) = (numeral true hasDigit cs).push '.' := by
  rw [numeral.eq_def]
  rfl

/-- The letter of a power of ten after a digit, and the sign after the letter. -/
theorem numeral_power {c : Char} (h : c = 'e' ∨ c = 'E') (isDecimal : Bool) (cs : List Char) :
    numeral isDecimal true (c :: cs) =
      match cs with
      | '+' :: ds => ((numeral true true ds).push '+').push c
      | '-' :: ds => ((numeral true true ds).push '-').push c
      | ds => (numeral true true ds).push c := by
  rw [numeral.eq_def]
  rcases h with rfl | rfl <;> rfl

theorem numeral_stop {c : Char} (hdigit : Decimal.isDigit c = false) {isDecimal hasDigit : Bool}
    (hpoint : ¬(c = '.' ∧ isDecimal = false)) (hpower : ¬((c = 'e' ∨ c = 'E') ∧ hasDigit = true))
    (cs : List Char) :
    numeral isDecimal hasDigit (c :: cs) = ⟨[], isDecimal, hasDigit, c :: cs⟩ := by
  rw [numeral.eq_def]
  simp only [hdigit, if_neg hpoint, if_neg hpower]
  rfl

/-- The characters of a number end where a text is parted. -/
theorem numeral_of_parted {tail : List Char} (h : Parted tail) (isDecimal hasDigit : Bool) :
    numeral isDecimal hasDigit tail = ⟨[], isDecimal, hasDigit, tail⟩ := by
  cases tail with
  | nil => rfl
  | cons c cs =>
    obtain ⟨hword, hpoint, -, -⟩ := h c rfl
    refine numeral_stop (isDigit_eq_false_of_isWordChar hword) (fun h => hpoint h.1) ?_ cs
    rintro ⟨rfl | rfl, -⟩ <;> cases hword

/-- What is left of a number, with a tail after it. -/
def Numeral.withTail (tail : List Char) (n : Numeral) : Numeral := { n with rest := n.rest ++ tail }

/-- The characters of a number are the same if a parted text follows. -/
theorem numeral_append {tail : List Char} (h : Parted tail) (isDecimal hasDigit : Bool)
    (cs : List Char) :
    numeral isDecimal hasDigit (cs ++ tail) = (numeral isDecimal hasDigit cs).withTail tail := by
  fun_induction numeral isDecimal hasDigit cs with
  | case1 => exact numeral_of_parted h _ _
  | case2 isDecimal hasDigit c cs hdigit ih =>
    rw [List.cons_append, numeral_digit hdigit, ih]
    rfl
  | case3 isDecimal hasDigit c cs _ hpoint ih =>
    obtain ⟨rfl, rfl⟩ := hpoint
    rw [List.cons_append, numeral_point, ih]
    rfl
  | case4 isDecimal hasDigit c _ _ hpower ds ih =>
    obtain ⟨hletter, rfl⟩ := hpower
    rw [List.cons_append, List.cons_append, numeral_power hletter]
    simp only [ih]
    rfl
  | case5 isDecimal hasDigit c _ _ hpower ds ih =>
    obtain ⟨hletter, rfl⟩ := hpower
    rw [List.cons_append, List.cons_append, numeral_power hletter]
    simp only [ih]
    rfl
  | case6 isDecimal hasDigit c _ _ hpower ds hplus hminus ih =>
    obtain ⟨hletter, rfl⟩ := hpower
    rw [List.cons_append, numeral_power hletter]
    -- neither what is left of the number nor what follows it begins with a sign
    split
    next ds' hds =>
      cases ds with
      | nil => exact absurd rfl (h '+' (congrArg List.head? hds)).2.2.1
      | cons c' cs =>
        cases hds
        exact (hplus cs rfl).elim
    next ds' hds =>
      cases ds with
      | nil => exact absurd rfl (h '-' (congrArg List.head? hds)).2.2.2
      | cons c' cs =>
        cases hds
        exact (hminus cs rfl).elim
    next =>
      rw [ih]
      rfl
  | case7 isDecimal hasDigit c cs hdigit hpoint hpower =>
    rw [List.cons_append, numeral_stop (Bool.eq_false_iff.2 hdigit) hpoint hpower]
    rfl

/-! ## Words and texts in quotes -/

/-- The characters of a word end where a text is parted. -/
theorem takeWhile_isWordChar_append {tail : List Char} (h : Parted tail) (cs : List Char) :
    (cs ++ tail).takeWhile isWordChar = cs.takeWhile isWordChar ∧
      (cs ++ tail).dropWhile isWordChar = cs.dropWhile isWordChar ++ tail := by
  induction cs with
  | nil =>
    cases tail with
    | nil => exact ⟨rfl, rfl⟩
    | cons c tail =>
      have hword := (h c rfl).1
      simp [hword]
  | cons c cs ih => cases hc : isWordChar c <;> simp [hc, ih]

theorem quoted_close {quote : Char} (hescape : quote ≠ '\\') (hline : quote ≠ '\n')
    (cs : List Char) : quoted quote (quote :: cs) = some ([], cs) := by
  rw [quoted, if_neg hline, if_pos rfl]
  · exact fun h _ => hescape h
  · exact fun _ _ h _ => hescape h

theorem quoted_cons {quote c : Char} (hescape : c ≠ '\\') (hline : c ≠ '\n') (hquote : c ≠ quote)
    (cs : List Char) :
    quoted quote (c :: cs) = (quoted quote cs).map fun r => (c :: r.1, r.2) := by
  rw [quoted, if_neg hline, if_neg hquote]
  · exact fun h _ => hescape h
  · exact fun _ _ h _ => hescape h

/-- A character that neither stands alone nor before another as a backslash is none. -/
theorem ne_backslash {c : Char} {cs : List Char} (hlone : c = '\\' → cs = [] → False)
    (hescape : ∀ d ds, c = '\\' → cs = d :: ds → False) : c ≠ '\\' := by
  intro hc
  cases cs with
  | nil => exact hlone hc rfl
  | cons d ds => exact hescape d ds hc rfl

theorem quoted_append {quote : Char} {cs name rest : List Char}
    (h : quoted quote cs = some (name, rest)) (tail : List Char) :
    quoted quote (cs ++ tail) = some (name, rest ++ tail) := by
  fun_induction quoted quote cs generalizing name with
  | case1 => cases h
  | case2 => cases h
  | case3 c cs ih =>
    obtain ⟨⟨name', rest'⟩, hinner, he⟩ := Option.map_eq_some_iff.1 h
    cases he
    rw [List.cons_append, List.cons_append, quoted, ih hinner]
    rfl
  | case4 => cases h
  | case5 cs hlone hescape hline =>
    cases h
    exact quoted_close (ne_backslash hlone hescape) hline _
  | case6 c cs hlone hescape hline hquote ih =>
    obtain ⟨⟨name', rest'⟩, hinner, he⟩ := Option.map_eq_some_iff.1 h
    cases he
    rw [List.cons_append, quoted_cons (ne_backslash hlone hescape) hline hquote, ih hinner]
    rfl

/-! ## Values -/

theorem eat?_append {mark : Char} {text rest : List Char} (h : eat? mark text = some rest)
    (tail : List Char) : eat? mark (text ++ tail) = some (rest ++ tail) :=
  eat?_eq_some.2 (skipSpace_append_of_cons (eat?_eq_some.1 h) tail)

/-- A mark that is not found before a value is not found whatever follows. -/
theorem eat?_append_eq_none {mark c : Char} {text cs : List Char}
    (h : eat? mark text = none) (hskip : skipSpace text = c :: cs) (tail : List Char) :
    eat? mark (text ++ tail) = none := by
  refine eat?_eq_none (skipSpace_append_of_cons hskip tail) ?_
  rintro rfl
  cases h.symm.trans (eat?_eq_some.2 hskip)

theorem HasValue.eat?_append {mark : Char} {text rest tail : List Char} {value : Literal}
    (hvalue : HasValue text value rest) (h : eat? mark text = none) :
    eat? mark (text ++ tail) = none := by
  obtain ⟨c, cs, hskip, -⟩ := hvalue.exists_skipSpace_eq
  exact eat?_append_eq_none h hskip tail

section

variable {tail : List Char}

mutual

/-- A value is the same whatever parted text follows. -/
theorem HasValue.append {text rest : List Char} {value : Literal} (h : HasValue text value rest)
    (htail : Parted tail) : HasValue (text ++ tail) value (rest ++ tail) := by
  match h with
  | .quoted hskip hquote h =>
    exact .quoted (skipSpace_append_of_cons hskip tail) hquote (quoted_append h tail)
  | .list hskip h => exact .list (skipSpace_append_of_cons hskip tail) (h.append htail)
  | .parenthesised hskip h =>
    exact .parenthesised (skipSpace_append_of_cons hskip tail) (h.append htail)
  | .dict hskip h => exact .dict (skipSpace_append_of_cons hskip tail) (h.append htail)
  | @HasValue.number _ cs c _ hskip hstart hdigit hvalue =>
    have hnumeral := numeral_append htail (c == '.') (Decimal.isDigit c) cs
    have hrest : (numeral (c == '.') (Decimal.isDigit c) cs).rest ++ tail =
        (numeral (c == '.') (Decimal.isDigit c) (cs ++ tail)).rest := by rw [hnumeral]; rfl
    rw [hrest]
    refine .number (skipSpace_append_of_cons hskip tail) hstart ?_ ?_
    · rw [hnumeral]
      exact hdigit
    · rw [hnumeral]
      exact hvalue
  | @HasValue.constant _ cs c _ hskip hletter hvalue =>
    obtain ⟨htake, hdrop⟩ := takeWhile_isWordChar_append htail cs
    rw [← hdrop]
    exact .constant (skipSpace_append_of_cons hskip tail) hletter (by rwa [htake])
termination_by structural h

theorem HasItems.append {bracket : Char} {before items : List Literal} {text rest : List Char}
    {comma : Bool} (h : HasItems bracket before text items comma rest) (htail : Parted tail) :
    HasItems bracket before (text ++ tail) items comma (rest ++ tail) := by
  match h with
  | .close hclose => exact .close (Literal.eat?_append hclose tail)
  | .more hopen hitem hcomma hrest =>
    exact .more (hitem.eat?_append hopen) (hitem.append htail) (Literal.eat?_append hcomma tail)
      (hrest.append htail)
  | .last hopen hitem hcomma hclose =>
    exact .last (hitem.eat?_append hopen) (hitem.append htail)
      (eat?_append_eq_none hcomma (eat?_eq_some.1 hclose) tail) (Literal.eat?_append hclose tail)
termination_by structural h

theorem HasEntries.append {before d : Dict} {text rest : List Char}
    (h : HasEntries before text d rest) (htail : Parted tail) :
    HasEntries before (text ++ tail) d (rest ++ tail) := by
  match h with
  | .close hclose => exact .close (Literal.eat?_append hclose tail)
  | .more hopen hkey hisKey hcolon hvalue hcomma hrest =>
    exact .more (hkey.eat?_append hopen) (hkey.append htail) hisKey
      (Literal.eat?_append hcolon tail) (hvalue.append htail) (Literal.eat?_append hcomma tail)
      (hrest.append htail)
  | .last hopen hkey hisKey hcolon hvalue hcomma hclose =>
    exact .last (hkey.eat?_append hopen) (hkey.append htail) hisKey
      (Literal.eat?_append hcolon tail) (hvalue.append htail)
      (eat?_append_eq_none hcomma (eat?_eq_some.1 hclose) tail) (Literal.eat?_append hclose tail)
termination_by structural h

end

end

/-! ## Sequences of values -/

/-- A value without its place. -/
def Taken.plain {text : List Char} (r : Taken Literal text) : Literal × List Char :=
  (r.value, r.rest)

theorem map_plain_lift {α : Type} {inner text text' : List Char} (x : Except Fault (Taken α inner))
    (hle : inner.length ≤ text.length) (hle' : inner.length ≤ text'.length) (f : α → Literal) :
    (x.map fun r => r.lift hle f).map Taken.plain =
      (x.map fun r => r.lift hle' f).map Taken.plain := by
  cases x <;> rfl

/-- Blanks in front of a value do not matter, also if it is refused. -/
theorem readValue_congr {text text' : List Char} (h : skipSpace text = skipSpace text') :
    (readValue text).map Taken.plain = (readValue text').map Taken.plain := by
  generalize hleft : (readValue text).map Taken.plain = left
  rw [readValue]
  split
  next hnil =>
    rw [← hleft, readValue]
    split
    next => rfl
    next hcons => cases hcons.symm.trans (h.trans hnil)
  next c cs hcons =>
    rw [← hleft, readValue]
    split
    next hnil => cases hnil.symm.trans (h.trans hcons)
    next hcons' =>
      cases hcons'.symm.trans (h.trans hcons)
      simp only
      split_ifs <;> first | rfl | exact map_plain_lift ..

/-- Blanks in front of values do not matter. -/
theorem readSequence_congr {text text' : List Char} (h : skipSpace text = skipSpace text') :
    readSequence text = readSequence text' := by
  have hvalue := readValue_congr h
  rw [readSequence, readSequence, h]
  split
  next => rfl
  next =>
    cases hread : readValue text with
    | error fault =>
      cases hread' : readValue text' with
      | error fault' =>
        rw [hread, hread'] at hvalue
        cases hvalue
        rfl
      | ok item' =>
        rw [hread, hread'] at hvalue
        cases hvalue
    | ok item =>
      cases hread' : readValue text' with
      | error fault' =>
        rw [hread, hread'] at hvalue
        cases hvalue
      | ok item' =>
        rw [hread, hread'] at hvalue
        obtain ⟨hitem, hrest⟩ := Prod.mk.inj (Except.ok.inj hvalue)
        simp only [hitem, hrest]

/-- The first of the values of a text. -/
theorem readSequence_of_hasValue {text rest : List Char} {value : Literal}
    (h : HasValue text value rest) :
    readSequence text = (readSequence rest).map (value :: ·) := by
  obtain ⟨c, cs, hskip, -⟩ := h.exists_skipSpace_eq
  obtain ⟨taken, hread, rfl, rfl⟩ := reads_of_hasValue h
  rw [readSequence, hskip, if_neg (by simp), hread]
  simp only
  cases readSequence taken.rest <;> rfl

/-- Values after a blank follow those before it. -/
theorem readSequence_append {text : List Char} {items : List Literal}
    (h : readSequence text = .ok items) (more : List Char) :
    readSequence (text ++ ' ' :: more) = (readSequence more).map (items ++ ·) := by
  fun_induction readSequence text generalizing items with
  | case1 text hempty =>
    cases h
    have hskip : skipSpace (text ++ ' ' :: more) = skipSpace more := by
      rw [skipSpace_append (skipSpace_eq_nil.1 (List.isEmpty_iff.1 hempty))]
      rfl
    rw [readSequence_congr hskip]
    cases readSequence more <;> rfl
  | case2 => cases h
  | case3 text _ item hread _ items' hrest ih =>
    cases h
    have hvalue : HasValue text item.value item.rest := reads_iff.1 ⟨item, hread, rfl, rfl⟩
    have hparted : Parted (' ' :: more) := .cons (by decide) more
    rw [readSequence_of_hasValue (hvalue.append hparted), ih hrest]
    cases readSequence more <;> rfl
  | case4 => cases h

theorem rest_suffix_of_readSequence {text : List Char} {fault : Fault}
    (h : readSequence text = .error fault) : fault.rest <:+ text := by
  fun_induction readSequence text with
  | case1 => cases h
  | case2 text _ fault' hread =>
    cases h
    exact rest_suffix_of_error hread
  | case3 => cases h
  | case4 text _ item hread _ fault' hrest ih =>
    cases h
    have haccounts := accounts_readValue text
    rw [hread] at haccounts
    exact (ih hrest).trans haccounts.2

/-! ## Places -/

theorem byteLength_append (cs ds : List Char) :
    byteLength (cs ++ ds) = byteLength cs + byteLength ds := by
  induction cs with
  | nil => rw [List.nil_append, byteLength, Nat.zero_add]
  | cons c cs ih => rw [List.cons_append, byteLength, byteLength, ih, Nat.add_assoc]

theorem byteLength_toList (text : String) : byteLength text.toList = text.utf8ByteSize := by
  rw [← String.ofList_toList (s := text)]
  generalize text.toList = cs
  rw [String.toList_ofList]
  induction cs with
  | nil => rfl
  | cons c cs ih =>
    rw [String.ofList_cons, String.utf8ByteSize_append, ← ih]
    simp [byteLength]

/-- A place in the second of two texts lies behind the whole first text. -/
theorem Fault.offset_within_append {fault : Fault} {x y : String}
    (h : fault.rest <:+ y.toList) :
    (fault.within (x ++ " " ++ y)).offset =
      x.utf8ByteSize + 1 + (fault.within y).offset := by
  obtain ⟨before, hbefore⟩ := h
  have hy : byteLength y.toList = byteLength before + byteLength fault.rest := by
    rw [← hbefore, byteLength_append]
  have hxy : byteLength (x ++ " " ++ y).toList =
      x.utf8ByteSize + 1 + byteLength y.toList := by
    rw [String.toList_append, String.toList_append, byteLength_append, byteLength_append,
      byteLength_toList x]
    rfl
  simp only [within, hxy, hy]
  omega

/-- What is read from two texts with a blank between them is what is read from each, and what is
refused is what is refused of the second one, at its place in the whole. -/
theorem parseSequence_append {x : String} {xs : List Literal} (hx : parseSequence x = .ok xs)
    (y : String) :
    (∀ ys, parseSequence y = .ok ys → parseSequence (x ++ " " ++ y) = .ok (xs ++ ys)) ∧
    ∀ refused, parseSequence y = .error refused →
      parseSequence (x ++ " " ++ y) = .error
        ⟨x ++ " " ++ y, refused.offset + (x.utf8ByteSize + 1), refused.reason⟩ := by
  have hxs : readSequence x.toList = .ok xs := by
    rw [parseSequence] at hx
    split at hx
    next => cases hx
    next hread => rw [hread, Except.ok.inj hx]
  have hjoined : readSequence (x ++ " " ++ y).toList =
      (readSequence y.toList).map (xs ++ ·) := by
    rw [String.toList_append, String.toList_append, List.append_assoc]
    exact readSequence_append hxs y.toList
  refine ⟨fun ys hy => ?_, fun refused hy => ?_⟩
  · rw [parseSequence] at hy ⊢
    split at hy
    next => cases hy
    next hread =>
      cases hy
      rw [hjoined, hread]
      rfl
  · rw [parseSequence] at hy ⊢
    split at hy
    next fault hread =>
      cases hy
      rw [hjoined, hread]
      have hoffset := Fault.offset_within_append (x := x) (rest_suffix_of_readSequence hread)
      refine congrArg Except.error ?_
      rw [Nat.add_comm, ← hoffset]
      rfl
    next => cases hy

/-- A list that is not closed after an item is refused there. -/
theorem readValue_unclosed {text cs after : List Char} {item : Literal}
    (hskip : skipSpace text = '[' :: cs) (hopen : eat? ']' cs = none)
    (hitem : HasValue cs item after) (hcomma : eat? ',' after = none)
    (hclose : eat? ']' after = none) :
    readValue text = .error ⟨.unclosed ']', skipSpace after⟩ := by
  obtain ⟨taken, hread, rfl, rfl⟩ := reads_of_hasValue hitem
  have hitems : readItems ']' [] cs = .error ⟨.unclosed ']', skipSpace taken.rest⟩ := by
    rw [readItems]
    split
    next hsome => cases hopen.symm.trans hsome
    next =>
      simp only [hread]
      split
      next hsome => cases hcomma.symm.trans hsome
      next =>
        split
        next hsome => cases hclose.symm.trans hsome
        next => rfl
  rw [readValue]
  split
  next hnil => cases hskip.symm.trans hnil
  next hcons =>
    cases hskip.symm.trans hcons
    simp only [hitems]
    rfl

theorem parseSequence_append_values :
    parseSequence "1500 'a'" = .ok [int 1500, str "a"] ∧
    parseSequence ("1500 'a'" ++ " " ++ "[2]") = .ok [int 1500, str "a", list [int 2]] ∧
    parseSequence "[2" = .error ⟨"[2", 2, .unclosed ']'⟩ ∧
    parseSequence ("1500 'a'" ++ " " ++ "[2") =
      .error ⟨"1500 'a'" ++ " " ++ "[2", 11, .unclosed ']'⟩ := by
  have hskip : skipSpace "1500 'a'".toList = ['1', '5', '0', '0', ' ', '\'', 'a', '\''] := rfl
  have hnumber : HasValue "1500 'a'".toList (int 1500) [' ', '\'', 'a', '\''] :=
    reads_iff.1 (reads_number hskip rfl rfl)
  have htext : HasValue [' ', '\'', 'a', '\''] (str "a") [] :=
    reads_iff.1 (.quoted "a" [] rfl (.inl rfl) rfl)
  have htwo : HasValue "2]".toList (int 2) [']'] :=
    reads_iff.1 (reads_number (rfl : skipSpace "2]".toList = '2' :: [']']) rfl rfl)
  have hopen : HasValue "2".toList (int 2) [] :=
    reads_iff.1 (reads_number (rfl : skipSpace "2".toList = '2' :: []) rfl rfl)
  have hlist : HasValue "[2]".toList (list [int 2]) [] := .list rfl (.last rfl htwo rfl rfl)
  have hx : parseSequence "1500 'a'" = .ok [int 1500, str "a"] := by
    rw [parseSequence, readSequence_of_hasValue hnumber, readSequence_of_hasValue htext,
      readSequence]
    rfl
  have hy : parseSequence "[2" = .error ⟨"[2", 2, .unclosed ']'⟩ := by
    rw [parseSequence, readSequence,
      readValue_unclosed (rfl : skipSpace "[2".toList = '[' :: "2".toList) rfl hopen rfl rfl]
    rfl
  have hmore : parseSequence "[2]" = .ok [list [int 2]] := by
    rw [parseSequence, readSequence_of_hasValue hlist, readSequence]
    rfl
  exact ⟨hx, (parseSequence_append hx "[2]").1 _ hmore, hy, (parseSequence_append hx "[2").2 _ hy⟩

end Conditioning.Literal
