import Conditioning.Proofs.Checked.Reader
import Mathlib.Data.List.DropRight

/-!
# Reading in place

The reader and the checked reader make the same of every text.  What the reader has
left of a text is at a place of it, and the number of bytes in front of that place is
what the checked reader counts (`located`).  Blanks, marks, texts in quotes, numbers
and words are read alike; at one depth after the other so are values, items and
entries (`readsAlike`), and from that whole texts (`parse?_eq` and so on).

So reading ends on every text, each value that is read ends behind the place where it
starts, every cut is made where a character begins or the text ends, and that is
where every refusal points (`reading_ends_in_place`).
-/

namespace Conditioning.Literal

/-! ## Places of the reader -/

/-- What the reader makes of a text, its places counted in bytes. -/
def located (input : String) {α : Type} {text : List Char} :
    Except Fault (Taken α text) → Outcome α
  | .ok taken => .ok (taken.value, placeOf input taken.rest)
  | .error fault => .error (fault.reason, placeOf input fault.rest)

theorem located_ok {α : Type} {input : String} {text : List Char} (taken : Taken α text) :
    located input (.ok taken) = .ok (taken.value, placeOf input taken.rest) := rfl

theorem located_lift {α β : Type} {input : String} {inner text : List Char}
    (x : Except Fault (Taken α inner)) (hle : inner.length ≤ text.length) (f : α → β) :
    located input (x.map fun r => r.lift hle f) = (located input x).mapValue f := by
  cases x <;> rfl

theorem located_eq_plain {input : String} {text : List Char}
    (x : Except Fault (Taken Literal text)) :
    located input x = match x.map Taken.plain with
      | .ok plain => .ok (plain.1, placeOf input plain.2)
      | .error fault => .error (fault.reason, placeOf input fault.rest) := by
  cases x <;> rfl

/-- Blanks in front of a value do not matter. -/
theorem located_readValue_congr {input : String} {text text' : List Char}
    (h : skipSpace text = skipSpace text') :
    located input (readValue text) = located input (readValue text') := by
  rw [located_eq_plain, readValue_congr h, ← located_eq_plain]

section

variable {input : String} {text cs : List Char} {c : Char}

theorem skipFrom_eq (h : text <:+ input.toList) :
    skipFrom input (placeOf input text) = placeOf input (skipSpace text) := by
  have hsplit : text.takeWhile isSpace ++ skipSpace text = text := List.takeWhile_append_dropWhile
  have hsingle : ∀ c ∈ text.takeWhile isSpace, c.utf8Size = 1 :=
    fun c hc => ofSingleBytes_isSpace c (List.mem_takeWhile_imp hc)
  have hplace := placeOf_append_of_forall (hsplit.symm ▸ h) hsingle
  rw [hsplit] at hplace
  rw [skipFrom, drop_bytesOf h, takeWhile_bytesOf ofSingleBytes_isSpace, hplace]

theorem suffix_of_cons (h : c :: cs <:+ text) : cs <:+ text :=
  (List.suffix_cons c cs).trans h

theorem byteAt?_eq_head? (h : text <:+ input.toList) :
    byteAt? input (placeOf input text) = (bytesOf text).head? := by
  rw [byteAt?, ← drop_bytesOf h, List.head?_drop]

/-- The byte at a place is the character there, or both are none of the single-byte characters. -/
theorem exists_byteAt?_eq (h : c :: cs <:+ input.toList) :
    ∃ b, byteAt? input (placeOf input (c :: cs)) = some b ∧
      (b = c ∨ b.utf8Size ≠ 1 ∧ c.utf8Size ≠ 1) := by
  rw [byteAt?_eq_head? h]
  by_cases hc : c.utf8Size = 1
  · exact ⟨c, by rw [bytesOf_cons hc, List.head?_cons], .inl rfl⟩
  · obtain ⟨b, bs, hbytes, hb⟩ := exists_bytesOf_cons hc cs
    exact ⟨b, by rw [hbytes, List.head?_cons], .inr ⟨hb, hc⟩⟩

theorem eatAt?_eq {mark : Char} (hmark : mark.utf8Size = 1) (h : text <:+ input.toList) :
    eatAt? input mark (placeOf input text) = (eat? mark text).map (placeOf input) := by
  have hskip := (skipSpace_suffix text).trans h
  rw [eatAt?, skipFrom_eq h]
  cases htext : skipSpace text with
  | nil =>
    rw [byteAt?_eq_head? List.nil_suffix, eat?, htext]
    rfl
  | cons c cs =>
    rw [htext] at hskip
    obtain ⟨b, hbyte, hb⟩ := exists_byteAt?_eq hskip
    simp only [hbyte, Option.some_inj]
    obtain rfl | ⟨hb, hc⟩ := hb
    · rw [eat?, htext]
      split
      next hmark' =>
        subst hmark'
        simp [placeOf_cons hskip, hmark]
      next hmark' => simp [hmark']
    · have hbyte' : b ≠ mark := fun he => hb (he ▸ hmark)
      rw [eat?_eq_none htext fun he => hc (he ▸ hmark), if_neg hbyte']
      rfl

/-! ## Texts in quotes, numbers and constants -/

theorem quotedAt_eq {quote : Char} (hquote : quote.utf8Size = 1) (h : cs <:+ input.toList) :
    quotedAt quote (placeOf input cs) cs =
      (quoted quote cs).map fun r => (r.1, placeOf input r.2) := by
  fun_induction quoted quote cs with
  | case1 => rfl
  | case2 => rfl
  | case3 c cs ih =>
    have hcs := suffix_of_cons h
    have hplace : placeOf input ('\\' :: c :: cs) + 1 + c.utf8Size = placeOf input cs := by
      rw [placeOf_cons hcs, placeOf_cons h]
      rfl
    rw [quotedAt, hplace, ih (suffix_of_cons hcs), Option.map_map, Option.map_map]
    rfl
  | case4 cs hlone hescape => rw [quotedAt, if_pos rfl]; exacts [rfl, hlone, hescape]
  | case5 cs hlone hescape hline =>
    rw [quotedAt, if_neg hline, if_pos rfl, Option.map_some, placeOf_cons h, hquote]
    · exact hlone
    · exact hescape
  | case6 c cs hlone hescape hline hne ih =>
    rw [quotedAt, if_neg hline, if_neg hne, ← placeOf_cons h, ih (suffix_of_cons h), Option.map_map,
      Option.map_map]
    · rfl
    · exact hlone
    · exact hescape

theorem located_readQuoted (quote : Char) (cs : List Char) :
    located input (readQuoted quote cs) = match quoted quote cs with
      | some r => .ok (str (String.ofList r.1), placeOf input r.2)
      | none => .error (.unterminated, placeOf input cs) := by
  unfold readQuoted
  split
  next r hr =>
    simp only [hr]
    rfl
  next hr =>
    simp only [hr]
    rfl

theorem readQuoted?_eq {quote : Char} (hquote : quote = '\'' ∨ quote = '"')
    (h : quote :: cs <:+ input.toList) :
    readQuoted? input quote (placeOf input (quote :: cs)) =
      some (located input (readQuoted quote cs)) := by
  have hsize : quote.utf8Size = 1 := by obtain rfl | rfl := hquote <;> rfl
  have hplace : placeOf input (quote :: cs) + 1 = placeOf input cs := by
    rw [placeOf_cons h, hsize]
  have hcs := suffix_of_cons h
  have hslice : slice? input (placeOf input cs) input.utf8ByteSize = some cs := by
    have hall := @slice?_eq input [] cs (by rwa [List.append_nil])
    rwa [List.append_nil] at hall
  rw [readQuoted?, hplace, hslice, Option.bind_eq_bind, Option.bind_some, quotedAt_eq hsize hcs,
    located_readQuoted]
  cases quoted quote cs <;> rfl

theorem utf8Size_of_startsNumber (h : startsNumber c = true) : c.utf8Size = 1 := by
  simp only [startsNumber, Decimal.isDigit, Bool.or_eq_true, Bool.and_eq_true, decide_eq_true_eq,
    beq_iff_eq] at h
  obtain ((rfl | rfl) | rfl) | h := h
  · rfl
  · rfl
  · rfl
  · exact utf8Size_of_le (Char.le_trans h.2 (by decide))

theorem readNumber?_eq (hstart : startsNumber c = true) (h : c :: cs <:+ input.toList) :
    readNumber? input (placeOf input (c :: cs)) = some (located input (readNumber c cs)) := by
  have hc := utf8Size_of_startsNumber hstart
  obtain ⟨htext, hdecimal, hdigit, hsingle⟩ :=
    numeral_bytesOf (c == '.') (Decimal.isDigit c) cs
  have hsplit := text_append_rest_numeral (c == '.') (Decimal.isDigit c) cs
  have hfront : c :: (numeral (c == '.') (Decimal.isDigit c) cs).text ++
      (numeral (c == '.') (Decimal.isDigit c) cs).rest <:+ input.toList := by
    rwa [List.cons_append, hsplit]
  have hplace := placeOf_append_of_forall hfront (List.forall_mem_cons.2 ⟨hc, hsingle⟩)
  have hslice := slice?_eq hfront
  rw [List.cons_append, hsplit] at hplace hslice
  rw [readNumber?, drop_bytesOf h, bytesOf_cons hc]
  simp only [htext, hdecimal, hdigit, hslice, hplace, Option.bind_eq_bind, Option.bind_some,
    readNumber]
  split
  next =>
    cases ofNumeral (c :: (numeral (c == '.') (Decimal.isDigit c) cs).text)
      (numeral (c == '.') (Decimal.isDigit c) cs).isDecimal <;> rfl
  next => rfl

theorem readConstant?_eq (hletter : 'A' ≤ c ∧ c ≤ 'Z') (h : c :: cs <:+ input.toList) :
    readConstant? input (placeOf input (c :: cs)) = some (located input (readConstant c cs)) := by
  have hword : isWordChar c = true := by
    simp [isWordChar, hletter.1, hletter.2]
  have hsplit : c :: cs.takeWhile isWordChar ++ cs.dropWhile isWordChar = c :: cs := by
    rw [List.cons_append, List.takeWhile_append_dropWhile]
  have hsingle : ∀ d ∈ c :: cs.takeWhile isWordChar, d.utf8Size = 1 :=
    List.forall_mem_cons.2 ⟨ofSingleBytes_isWordChar c hword,
      fun d hd => ofSingleBytes_isWordChar d (List.mem_takeWhile_imp hd)⟩
  have hfront : c :: cs.takeWhile isWordChar ++ cs.dropWhile isWordChar <:+ input.toList := by
    rwa [hsplit]
  have hplace := placeOf_append_of_forall hfront hsingle
  have hslice := slice?_eq hfront
  rw [hsplit] at hplace hslice
  rw [readConstant?, drop_bytesOf h, takeWhile_bytesOf ofSingleBytes_isWordChar,
    List.takeWhile_cons_of_pos hword]
  simp only [hslice, hplace, Option.bind_eq_bind, Option.bind_some, readConstant]
  cases constant? (c :: cs.takeWhile isWordChar) <;> rfl

end

/-! ## Values alike -/

theorem skipSpace_skipSpace (text : List Char) : skipSpace (skipSpace text) = skipSpace text :=
  List.dropWhile_idempotent isSpace text

theorem eat?_skipSpace (mark : Char) (text : List Char) :
    eat? mark (skipSpace text) = eat? mark text := by
  rw [eat?, eat?, skipSpace_skipSpace]

theorem Outcome.mapValue_id {α : Type} (outcome : Outcome α) : outcome.mapValue id = outcome := by
  cases outcome <;> rfl

/-- No value starts with a character that is longer than one byte. -/
theorem not_starts {c : Char} (h : c.utf8Size ≠ 1) :
    ¬(c = '\'' ∨ c = '"') ∧ c ≠ '[' ∧ c ≠ '(' ∧ c ≠ '\x7b' ∧ ¬startsNumber c = true ∧
      ¬('A' ≤ c ∧ c ≤ 'Z') := by
  refine ⟨?_, ?_, ?_, ?_, fun hnumber => h (utf8Size_of_startsNumber hnumber),
    fun hletter => h (utf8Size_of_le (Char.le_trans hletter.2 (by decide)))⟩
  · rintro (rfl | rfl) <;> exact h rfl
  all_goals
    rintro rfl
    exact h rfl

/-- At a depth, the checked reader makes of every short enough text what the reader makes of it. -/
structure ReadsAlike (input : String) (depth : Nat) : Prop where
  value {text : List Char} (h : text <:+ input.toList) (hdepth : 2 * text.length < depth) :
    readValue? input depth (placeOf input text) = some (located input (readValue text))
  items {bracket : Char} {before : List Literal} {text : List Char}
    (hbracket : bracket.utf8Size = 1) (h : text <:+ input.toList)
    (hdepth : 2 * text.length + 1 < depth) :
    readItems? input depth bracket before (placeOf input text) =
      some (located input (readItems bracket before text))
  entries {before : Dict} {text : List Char} (h : text <:+ input.toList)
    (hdepth : 2 * text.length + 1 < depth) :
    readEntries? input depth before (placeOf input text) =
      some (located input (readEntries before text))

section

variable {input : String} {depth : Nat} {text : List Char}

/-- A value for which blanks are skipped first. -/
theorem ReadsAlike.value_skip (hd : ReadsAlike input depth) (h : text <:+ input.toList)
    (hdepth : 2 * text.length < depth) :
    readValue? input depth (skipFrom input (placeOf input text)) =
      some (located input (readValue text)) := by
  have hlength := length_skipSpace_le text
  rw [skipFrom_eq h, hd.value ((skipSpace_suffix text).trans h) (by omega),
    located_readValue_congr (skipSpace_skipSpace text)]

theorem eatAt?_some {mark : Char} {rest : List Char} (hmark : mark.utf8Size = 1)
    (h : text <:+ input.toList) (heat : eat? mark text = some rest) :
    eatAt? input mark (placeOf input text) = some (placeOf input rest) := by
  rw [eatAt?_eq hmark h, heat, Option.map_some]

theorem eatAt?_none {mark : Char} (hmark : mark.utf8Size = 1) (h : text <:+ input.toList)
    (heat : eat? mark text = none) : eatAt? input mark (placeOf input text) = none := by
  rw [eatAt?_eq hmark h, heat, Option.map_none]

/-- A mark for which blanks are skipped first. -/
theorem eatAt?_skipFrom {mark : Char} (hmark : mark.utf8Size = 1) (h : text <:+ input.toList) :
    eatAt? input mark (skipFrom input (placeOf input text)) =
      eatAt? input mark (placeOf input text) := by
  rw [skipFrom_eq h, eatAt?_eq hmark ((skipSpace_suffix text).trans h), eat?_skipSpace,
    eatAt?_eq hmark h]

theorem isPlace_placeOf (h : text <:+ input.toList) : IsPlace input (placeOf input text) :=
  ⟨placeOf_le, isValid_placeOf h⟩

/-- What the reader makes of a text ends in place, behind the text it starts from. -/
theorem keepAdvanced?_located (h : text <:+ input.toList) :
    keepAdvanced? input (placeOf input text) (located input (readValue text)) =
      some (located input (readValue text)) := by
  have haccount := accounts_readValue text
  cases hread : readValue text with
  | error fault =>
    rw [hread] at haccount
    exact if_pos ⟨isPlace_placeOf h, isPlace_placeOf (List.IsSuffix.trans haccount h)⟩
  | ok taken =>
    rw [hread] at haccount
    exact if_pos ⟨isPlace_placeOf h, placeOf_lt haccount.2 taken.shorter h,
      isPlace_placeOf (haccount.2.trans h)⟩

theorem advanced_of_keepAdvanced? {start : Nat} {outcome : Outcome Literal}
    (h : keepAdvanced? input start outcome = some outcome) :
    (∀ value stop, outcome = .ok (value, stop) → start < stop ∧ IsPlace input stop) ∧
      ∀ reason stop, outcome = .error (reason, stop) → IsPlace input stop := by
  constructor
  · rintro value stop rfl
    exact (Option.ite_none_right_eq_some.1 h).1.2
  · rintro reason stop rfl
    exact (Option.ite_none_right_eq_some.1 h).1.2

/-- Nothing is dropped of what the reader makes of a text. -/
theorem keepAdvanced?_bind {outcome : Option (Outcome Literal)} (h : text <:+ input.toList)
    (houtcome : outcome = some (located input (readValue text))) :
    outcome.bind (keepAdvanced? input (placeOf input text)) =
      some (located input (readValue text)) := by
  rw [houtcome, Option.bind_some, keepAdvanced?_located h]

theorem readValue?_succ (hd : ReadsAlike input depth) (h : text <:+ input.toList)
    (hdepth : 2 * text.length < depth + 1) :
    readValue? input (depth + 1) (placeOf input text) = some (located input (readValue text)) := by
  rw [readValue?]
  -- turned around, so that the match of the reader is split, on which its rest depends
  refine keepAdvanced?_bind h (Eq.symm ?_)
  rw [readValue]
  split
  next hskip =>
    rw [skipFrom_eq h, hskip, byteAt?_eq_head? List.nil_suffix]
    rfl
  next c cs hskip =>
    have hsuffix : c :: cs <:+ input.toList := hskip ▸ (skipSpace_suffix text).trans h
    have hlt : cs.length < text.length := by
      have := length_skipSpace_le text
      rwa [hskip] at this
    have hshort : 2 * cs.length + 1 < depth := by omega
    have hcs := suffix_of_cons hsuffix
    obtain ⟨b, hbyte, hb⟩ := exists_byteAt?_eq hsuffix
    have hstart : skipFrom input (placeOf input text) = placeOf input (c :: cs) := by
      rw [skipFrom_eq h, hskip]
    simp only [hstart, hbyte]
    obtain rfl | ⟨hb, hc⟩ := hb
    · have hplace (hsize : b.utf8Size = 1) : placeOf input (b :: cs) + 1 = placeOf input cs := by
        rw [placeOf_cons hsuffix, hsize]
      split_ifs with hquote hlist htuple hdict hnumber hletter
      · rw [readQuoted?_eq hquote hsuffix, located_lift, Outcome.mapValue_id]
      · rw [hplace (hlist ▸ rfl), hd.items rfl hcs hshort, located_lift]
        rfl
      · rw [hplace (htuple ▸ rfl), hd.items rfl hcs hshort, located_lift]
        rfl
      · rw [hplace (hdict ▸ rfl), hd.entries hcs hshort, located_lift]
        rfl
      · rw [readNumber?_eq hnumber hsuffix, located_lift, Outcome.mapValue_id]
      · rw [readConstant?_eq hletter hsuffix, located_lift, Outcome.mapValue_id]
      · rfl
    · obtain ⟨hquote, hlist, htuple, hdict, hnumber, hletter⟩ := not_starts hc
      obtain ⟨hquote', hlist', htuple', hdict', hnumber', hletter'⟩ := not_starts hb
      rw [if_neg hquote, if_neg hlist, if_neg htuple, if_neg hdict, if_neg hnumber,
        if_neg hletter, if_neg hquote', if_neg hlist', if_neg htuple', if_neg hdict',
        if_neg hnumber', if_neg hletter']
      rfl

/-- What is left behind a value is at the end of the text. -/
theorem rest_suffix_readValue {taken : Taken Literal text} (h : readValue text = .ok taken) :
    taken.rest <:+ text := by
  have haccount := accounts_readValue text
  rw [h] at haccount
  exact haccount.2

theorem readItems?_succ (hd : ReadsAlike input depth) {bracket : Char} {before : List Literal}
    (hbracket : bracket.utf8Size = 1) (h : text <:+ input.toList)
    (hdepth : 2 * text.length + 1 < depth + 1) :
    readItems? input (depth + 1) bracket before (placeOf input text) =
      some (located input (readItems bracket before text)) := by
  have hitem := hd.value_skip h (by omega)
  rw [readItems]
  split
  next rest hclose =>
    rw [readItems?, eatAt?_some hbracket h hclose]
    rfl
  next hopen =>
    have hopen' := eatAt?_none hbracket h hopen
    cases hread : readValue text with
    | error fault =>
      rw [readItems?, hopen', hitem, hread]
      rfl
    | ok item =>
      have hafter := (rest_suffix_readValue hread).trans h
      have hshort := item.shorter
      rw [hread, located_ok] at hitem
      dsimp only
      split
      next rest hcomma =>
        have hlength := length_lt_of_eat? hcomma
        simp only [readItems?, hopen', hitem, eatAt?_some rfl hafter hcomma]
        rw [located_lift, Outcome.mapValue_id]
        exact hd.items hbracket ((suffix_of_eat? hcomma).trans hafter) (by omega)
      next hcomma =>
        have hcomma' := eatAt?_none rfl hafter hcomma
        split
        next rest hclose =>
          have hclose' :=
            (eatAt?_skipFrom hbracket hafter).trans (eatAt?_some hbracket hafter hclose)
          simp only [readItems?, hopen', hitem, hcomma', hclose']
          rfl
        next hclose =>
          have hclose' :=
            (eatAt?_skipFrom hbracket hafter).trans (eatAt?_none hbracket hafter hclose)
          simp only [readItems?, hopen', hitem, hcomma', hclose']
          rw [skipFrom_eq hafter]
          rfl

theorem readEntries?_succ (hd : ReadsAlike input depth) {before : Dict}
    (h : text <:+ input.toList) (hdepth : 2 * text.length + 1 < depth + 1) :
    readEntries? input (depth + 1) before (placeOf input text) =
      some (located input (readEntries before text)) := by
  have hkey := hd.value_skip h (by omega)
  rw [readEntries]
  split
  next rest hclose =>
    rw [readEntries?, eatAt?_some rfl h hclose]
    rfl
  next hopen =>
    have hopen' := eatAt?_none rfl h hopen
    cases hread : readValue text with
    | error fault =>
      rw [readEntries?, hopen', hkey, hread]
      rfl
    | ok key =>
      have hafterKey := (rest_suffix_readValue hread).trans h
      have hshortKey := key.shorter
      rw [hread, located_ok] at hkey
      dsimp only
      split
      next hisKey =>
        split
        next hcolon =>
          have hcolon' := eatAt?_none rfl hafterKey hcolon
          simp only [readEntries?, hopen', hkey, if_pos hisKey, hcolon', skipFrom_eq hafterKey]
          rfl
        next valueText hcolon =>
          have hcolon' := eatAt?_some rfl hafterKey hcolon
          have hvalueText := (suffix_of_eat? hcolon).trans hafterKey
          have hshortText := length_lt_of_eat? hcolon
          have hvalue := hd.value hvalueText (by omega)
          cases hread' : readValue valueText with
          | error fault =>
            simp only [readEntries?, hopen', hkey, if_pos hisKey, hcolon', hvalue, hread']
            rfl
          | ok value =>
            have hafter := (rest_suffix_readValue hread').trans hvalueText
            have hshort := value.shorter
            rw [hread', located_ok] at hvalue
            dsimp only
            split
            next rest hcomma =>
              have hlength := length_lt_of_eat? hcomma
              simp only [readEntries?, hopen', hkey, if_pos hisKey, hcolon', hvalue,
                eatAt?_some rfl hafter hcomma]
              rw [located_lift, Outcome.mapValue_id]
              exact hd.entries ((suffix_of_eat? hcomma).trans hafter) (by omega)
            next hcomma =>
              have hcomma' := eatAt?_none rfl hafter hcomma
              split
              next rest hclose =>
                have hclose' := (eatAt?_skipFrom rfl hafter).trans (eatAt?_some rfl hafter hclose)
                simp only [readEntries?, hopen', hkey, if_pos hisKey, hcolon', hvalue, hcomma',
                  hclose']
                rfl
              next hclose =>
                have hclose' := (eatAt?_skipFrom rfl hafter).trans (eatAt?_none rfl hafter hclose)
                simp only [readEntries?, hopen', hkey, if_pos hisKey, hcolon', hvalue, hcomma',
                  hclose']
                rw [skipFrom_eq hafter]
                rfl
      next hnot =>
        simp only [readEntries?, hopen', hkey, if_neg hnot]
        rfl

end

/-- A value is read one level below the items it is in, and items one level below the value they
make up. -/
theorem readsAlike (input : String) (depth : Nat) : ReadsAlike input depth := by
  induction depth with
  | zero =>
    exact ⟨fun _ h => absurd h (Nat.not_lt_zero _), fun _ _ h => absurd h (Nat.not_lt_zero _),
      fun _ h => absurd h (Nat.not_lt_zero _)⟩
  | succ depth hd => exact ⟨readValue?_succ hd, readItems?_succ hd, readEntries?_succ hd⟩

/-! ## Whole texts alike -/

/-- A depth of twice the bytes of the text and one more is enough to read a value. -/
theorem readValue?_eq {input : String} {depth : Nat} {text : List Char}
    (hdepth : fullDepth input ≤ depth) (h : text <:+ input.toList) :
    readValue? input depth (placeOf input text) = some (located input (readValue text)) := by
  have hlength := length_le_byteLength input.toList
  have hle := h.length_le
  rw [byteLength_toList] at hlength
  rw [fullDepth] at hdepth
  exact (readsAlike input depth).value h (by omega)

section

variable {input : String} {text : List Char}

/-- The end of a text is reached where nothing is left. -/
theorem utf8ByteSize_le_placeOf (h : text <:+ input.toList) :
    input.utf8ByteSize ≤ placeOf input text ↔ text.isEmpty = true := by
  rw [List.isEmpty_iff]
  constructor
  · intro hle
    by_contra hne
    have hlt := placeOf_lt List.nil_suffix (List.length_pos_of_ne_nil hne) h
    rw [placeOf_nil] at hlt
    omega
  · rintro rfl
    exact Nat.le_refl _

/-- The reader skips the blanks in front of a text first. -/
theorem skipFrom_zero : skipFrom input 0 = placeOf input (skipSpace input.toList) := by
  have hzero : placeOf input input.toList = 0 := @placeOf_eq input [] input.toList rfl
  rw [← hzero, skipFrom_eq List.suffix_rfl]

theorem Fault.within_eq (fault : Fault) :
    fault.within input = ⟨input, placeOf input fault.rest, fault.reason⟩ := by
  rw [Fault.within, byteLength_toList]
  rfl

theorem readSequence?_eq {count : Nat} (h : text <:+ input.toList) (hcount : text.length < count) :
    readSequence? input count (placeOf input (skipSpace text)) =
      some ((readSequence text).mapError fun fault =>
        (fault.reason, placeOf input fault.rest)) := by
  induction count generalizing text with
  | zero => exact absurd hcount (Nat.not_lt_zero _)
  | succ count ih =>
    have hskip := (skipSpace_suffix text).trans h
    rw [readSequence?, readSequence]
    split
    next hend =>
      rw [if_pos ((utf8ByteSize_le_placeOf hskip).1 hend)]
      rfl
    next hend =>
      rw [if_neg fun hempty => hend ((utf8ByteSize_le_placeOf hskip).2 hempty),
        readValue?_eq (Nat.le_refl _) hskip, located_readValue_congr (skipSpace_skipSpace text)]
      cases hread : readValue text with
      | error fault => rfl
      | ok item =>
        have hafter := (rest_suffix_readValue hread).trans h
        have hshort := item.shorter
        simp only [located_ok, skipFrom_eq hafter, ih hafter (by omega)]
        cases readSequence item.rest <;> rfl

end

theorem parse?_eq (input : String) : parse? input = some (parse input) := by
  have hskip := skipSpace_suffix input.toList
  rw [parse?, parse, skipFrom_zero, readValue?_eq (Nat.le_refl _) hskip,
    located_readValue_congr (skipSpace_skipSpace input.toList)]
  cases hread : readValue input.toList with
  | error fault =>
    simp only [Fault.within_eq]
    rfl
  | ok r =>
    have hafter := rest_suffix_readValue hread
    have hend := utf8ByteSize_le_placeOf ((skipSpace_suffix r.rest).trans hafter)
    simp only [located_ok, Option.bind_eq_bind, Option.bind_some, skipFrom_eq hafter, hend,
      Fault.within_eq]
    split <;> rfl

theorem parseDict?_eq (input : String) : parseDict? input = some (parseDict input) := by
  rw [parseDict?, parse?_eq, parseDict]
  cases parse input with
  | error misread => rfl
  | ok value => cases value <;> rfl

theorem parseSequence?_eq (input : String) : parseSequence? input = some (parseSequence input) := by
  have hlength := length_le_byteLength input.toList
  rw [byteLength_toList] at hlength
  rw [parseSequence?, parseSequence, skipFrom_zero,
    readSequence?_eq List.suffix_rfl (Nat.lt_succ_of_le hlength)]
  cases readSequence input.toList with
  | error fault =>
    simp only [Fault.within_eq]
    rfl
  | ok items => rfl

/-! ## Where refusals are -/

section

variable {input : String} {misread : Misread}

theorem Fault.isPlace_offset {fault : Fault} (h : fault.rest <:+ input.toList) :
    IsPlace input (fault.within input).offset := by
  rw [Fault.within_eq]
  exact isPlace_placeOf h

theorem isPlace_of_parse (h : parse input = .error misread) : IsPlace input misread.offset := by
  rw [parse] at h
  split at h
  next fault hread =>
    cases h
    exact Fault.isPlace_offset (rest_suffix_of_error hread)
  next r hread =>
    split at h
    next => cases h
    next =>
      cases h
      exact Fault.isPlace_offset ((skipSpace_suffix r.rest).trans (rest_suffix_readValue hread))

theorem isPlace_of_parseDict (h : parseDict input = .error misread) :
    IsPlace input misread.offset := by
  rw [parseDict] at h
  split at h
  next refused hparse =>
    cases h
    exact isPlace_of_parse hparse
  next => cases h
  next =>
    cases h
    exact ⟨Nat.zero_le _, String.Pos.Raw.isValid_zero⟩

theorem isPlace_of_parseSequence (h : parseSequence input = .error misread) :
    IsPlace input misread.offset := by
  rw [parseSequence] at h
  split at h
  next fault hread =>
    cases h
    exact Fault.isPlace_offset (rest_suffix_of_readSequence hread)
  next => cases h

end

/-! ## Reading in place -/

/-- Reading ends on every text, and in place.  From any place on, a value is read as the reader
reads the rest of the text, and a value that is read ends behind that place; every value of a text
is read from a place on, every cut is made at one, and every refusal is at one. -/
theorem reading_ends_in_place (input : String) :
    (∀ depth start, fullDepth input ≤ depth → IsPlace input start →
      ∃ outcome, readValue? input depth start = some outcome ∧
        outcome = located input (readValue (dropBytes start input.toList)) ∧
        (∀ value stop, outcome = .ok (value, stop) → start < stop ∧ IsPlace input stop) ∧
        ∀ reason stop, outcome = .error (reason, stop) → IsPlace input stop) ∧
    parse? input = some (parse input) ∧
    parseDict? input = some (parseDict input) ∧
    parseSequence? input = some (parseSequence input) ∧
    ∀ misread, parse input = .error misread ∨ parseDict input = .error misread ∨
      parseSequence input = .error misread → IsPlace input misread.offset := by
  refine ⟨fun depth start hdepth hstart => ?_, parse?_eq input, parseDict?_eq input,
    parseSequence?_eq input, ?_⟩
  · obtain ⟨hsuffix, hplace⟩ := of_isValid hstart.2
    have hread := readValue?_eq hdepth hsuffix
    have hkeep := keepAdvanced?_located hsuffix
    rw [hplace] at hread hkeep
    exact ⟨_, hread, rfl, advanced_of_keepAdvanced? hkeep⟩
  · rintro misread (h | h | h)
    · exact isPlace_of_parse h
    · exact isPlace_of_parseDict h
    · exact isPlace_of_parseSequence h

theorem reading_ends_in_place_accent :
    parse "['é'" = .error ⟨"['é'", 5, .unclosed ']'⟩ ∧
    parse? "['é'" = some (parse "['é'") ∧
    ¬IsPlace "['é'" 3 ∧
    IsPlace "['é'" 5 ∧
    ∃ stop, readValue? "['é'" (fullDepth "['é'") 1 = some (.ok (str "é", stop)) ∧ 1 < stop ∧
      IsPlace "['é'" stop := by
  have hskip : skipSpace "['é'".toList = ['[', '\'', 'é', '\''] := rfl
  have haccent : Reads ['\'', 'é', '\''] (str "é") [] := .quoted "é" [] rfl (.inl rfl) rfl
  have hparse : parse "['é'" = .error ⟨"['é'", 5, .unclosed ']'⟩ := by
    rw [parse, readValue_unclosed hskip rfl (reads_iff.1 haccent) rfl rfl]
    rfl
  obtain ⟨hvalue, hall, -, -, hrefused⟩ := reading_ends_in_place "['é'"
  obtain ⟨outcome, hread, houtcome, hok, -⟩ := hvalue _ 1 (Nat.le_refl _) (by decide)
  have hrest : dropBytes 1 "['é'".toList = ['\'', 'é', '\''] := by decide
  rw [hrest] at houtcome
  obtain ⟨taken, htaken, hvalue', hrest'⟩ := haccent
  have hquoted : outcome = .ok (str "é", 5) := by
    rw [houtcome, htaken, located_ok, hvalue', hrest']
    rfl
  exact ⟨hparse, hall, by decide, hrefused _ (.inl hparse), 5, hquoted ▸ hread, hok _ _ hquoted⟩

end Conditioning.Literal
