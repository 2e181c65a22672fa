import Conditioning.Proofs.Except
import Conditioning.Proofs.Literal.Reading
import Mathlib.Data.List.TakeWhile

/-!
# The grammar of literals

What the reader accepts is given here as a grammar: `HasValue text value rest`
says that the text begins with a value and that the rest follows it, and
`HasItems` and `HasEntries` say the same of what stands in brackets.  The reader
accepts what the grammar allows and nothing else (`reads_iff`), and what it
refuses it refuses at a place of the text (`rest_suffix_of_error`).

What is known of texts that are read is proved by induction on the grammar.
-/

namespace Conditioning.Literal

/-! ## Blanks -/

theorem skipSpace_eq_nil {text : List Char} : skipSpace text = [] ↔ ∀ c ∈ text, isSpace c = true :=
  List.dropWhile_eq_nil_iff

/-- A text that does not begin with a blank is left as it is. -/
theorem skipSpace_cons {c : Char} (h : isSpace c = false) (cs : List Char) :
    skipSpace (c :: cs) = c :: cs := by
  rw [skipSpace, List.dropWhile_cons_of_neg (by simp [h])]

/-- Blanks in front are skipped. -/
theorem skipSpace_append {gap : List Char} (h : ∀ c ∈ gap, isSpace c = true) (text : List Char) :
    skipSpace (gap ++ text) = skipSpace text :=
  List.dropWhile_append_of_pos h

theorem skipSpace_suffix (text : List Char) : skipSpace text <:+ text :=
  List.dropWhile_suffix isSpace

theorem skipSpace_append_of_cons {text : List Char} {c : Char} {cs : List Char}
    (h : skipSpace text = c :: cs) (tail : List Char) :
    skipSpace (text ++ tail) = c :: (cs ++ tail) := by
  have hne : skipSpace text ≠ [] := h ▸ List.cons_ne_nil c cs
  rw [skipSpace, List.dropWhile_append, if_neg (by simpa [skipSpace] using hne)]
  exact congrArg (· ++ tail) h

/-! ## Marks -/

theorem eat?_eq_some {mark : Char} {text rest : List Char} :
    eat? mark text = some rest ↔ skipSpace text = mark :: rest := by
  rw [eat?]
  split
  next h => simp [h]
  next c cs h =>
    split
    next hc => simp [h, hc]
    next hc => simp [h, hc]

theorem eat?_eq_none {mark c : Char} {text cs : List Char} (h : skipSpace text = c :: cs)
    (hne : c ≠ mark) : eat? mark text = none := by
  rw [eat?, h]
  exact if_neg hne

/-- What is left after a mark is at the end of the text. -/
theorem suffix_of_eat? {mark : Char} {text rest : List Char} (h : eat? mark text = some rest) :
    rest <:+ text :=
  (List.suffix_cons mark rest).trans (eat?_eq_some.1 h ▸ skipSpace_suffix text)

/-- What is left after a text in quotes is at the end of it. -/
theorem suffix_of_quoted {quote : Char} {cs : List Char} {r : List Char × List Char}
    (h : quoted quote cs = some r) : r.2 <:+ cs := by
  fun_induction quoted quote cs generalizing r with
  | case1 => cases h
  | case2 => cases h
  | case3 c cs ih =>
    obtain ⟨r', hr', rfl⟩ := Option.map_eq_some_iff.1 h
    exact (ih hr').trans ((List.suffix_cons c cs).trans (List.suffix_cons _ _))
  | case4 => cases h
  | case5 =>
    cases h
    exact List.suffix_cons _ _
  | case6 c cs _ _ _ _ ih =>
    obtain ⟨r', hr', rfl⟩ := Option.map_eq_some_iff.1 h
    exact (ih hr').trans (List.suffix_cons c cs)

/-! ## The grammar -/

mutual

/-- The text begins with a value. -/
inductive HasValue : List Char → Literal → List Char → Prop where
  | quoted {text cs name rest : List Char} {quote : Char} (hskip : skipSpace text = quote :: cs)
      (hquote : quote = '\'' ∨ quote = '"') (h : quoted quote cs = some (name, rest)) :
      HasValue text (str (String.ofList name)) rest
  | list {text cs rest : List Char} {items : List Literal} {comma : Bool}
      (hskip : skipSpace text = '[' :: cs) (h : HasItems ']' [] cs items comma rest) :
      HasValue text (list items) rest
  | parenthesised {text cs rest : List Char} {items : List Literal} {comma : Bool}
      (hskip : skipSpace text = '(' :: cs) (h : HasItems ')' [] cs items comma rest) :
      HasValue text (ofParenthesised items comma) rest
  | dict {text cs rest : List Char} {d : Dict} (hskip : skipSpace text = '\x7b' :: cs)
      (h : HasEntries Dict.empty cs d rest) : HasValue text (dict d.entries) rest
  | number {text cs : List Char} {c : Char} {value : Literal} (hskip : skipSpace text = c :: cs)
      (hstart : startsNumber c = true)
      (hdigit : (numeral (c == '.') (Decimal.isDigit c) cs).hasDigit = true)
      (hvalue : ofNumeral (c :: (numeral (c == '.') (Decimal.isDigit c) cs).text)
        (numeral (c == '.') (Decimal.isDigit c) cs).isDecimal = .ok value) :
      HasValue text value (numeral (c == '.') (Decimal.isDigit c) cs).rest
  | constant {text cs : List Char} {c : Char} {value : Literal} (hskip : skipSpace text = c :: cs)
      (hletter : 'A' ≤ c ∧ c ≤ 'Z')
      (hvalue : constant? (c :: cs.takeWhile isWordChar) = some value) :
      HasValue text value (cs.dropWhile isWordChar)

/-- The text begins with items up to a closing bracket, after those before it; the mark says whether
a comma follows the last one. -/
inductive HasItems :
    Char → List Literal → List Char → List Literal → Bool → List Char → Prop where
  | close {bracket : Char} {before : List Literal} {text rest : List Char}
      (hclose : eat? bracket text = some rest) :
      HasItems bracket before text before (!before.isEmpty) rest
  | more {bracket : Char} {before items : List Literal} {text after later rest : List Char}
      {item : Literal} {comma : Bool} (hopen : eat? bracket text = none)
      (hitem : HasValue text item after) (hcomma : eat? ',' after = some later)
      (hrest : HasItems bracket (before ++ [item]) later items comma rest) :
      HasItems bracket before text items comma rest
  | last {bracket : Char} {before : List Literal} {text after rest : List Char} {item : Literal}
      (hopen : eat? bracket text = none) (hitem : HasValue text item after)
      (hcomma : eat? ',' after = none) (hclose : eat? bracket after = some rest) :
      HasItems bracket before text (before ++ [item]) false rest

/-- The text begins with entries up to the closing brace, which are put into those before it. -/
inductive HasEntries : Dict → List Char → Dict → List Char → Prop where
  | close {before : Dict} {text rest : List Char} (hclose : eat? '\x7d' text = some rest) :
      HasEntries before text before rest
  | more {before d : Dict} {text afterKey valueText after later rest : List Char}
      {key value : Literal} (hopen : eat? '\x7d' text = none) (hkey : HasValue text key afterKey)
      (hisKey : key.isKey = true) (hcolon : eat? ':' afterKey = some valueText)
      (hvalue : HasValue valueText value after) (hcomma : eat? ',' after = some later)
      (hrest : HasEntries (before.put key value) later d rest) : HasEntries before text d rest
  | last {before : Dict} {text afterKey valueText after rest : List Char} {key value : Literal}
      (hopen : eat? '\x7d' text = none) (hkey : HasValue text key afterKey)
      (hisKey : key.isKey = true) (hcolon : eat? ':' afterKey = some valueText)
      (hvalue : HasValue valueText value after) (hcomma : eat? ',' after = none)
      (hclose : eat? '\x7d' after = some rest) :
      HasEntries before text (before.put key value) rest

end

namespace HasValue

variable {text rest : List Char} {value : Literal}

/-- Blanks in front of a value do not matter. -/
theorem of_skipSpace_eq (h : HasValue text value rest) {text' : List Char}
    (hskip : skipSpace text' = skipSpace text) : HasValue text' value rest := by
  cases h with
  | quoted hs hquote h => exact .quoted (hskip.trans hs) hquote h
  | list hs h => exact .list (hskip.trans hs) h
  | parenthesised hs h => exact .parenthesised (hskip.trans hs) h
  | dict hs h => exact .dict (hskip.trans hs) h
  | number hs hstart hdigit hvalue => exact .number (hskip.trans hs) hstart hdigit hvalue
  | constant hs hletter hvalue => exact .constant (hskip.trans hs) hletter hvalue

/-- A value begins with a character that is neither a closing bracket nor a separator. -/
theorem exists_skipSpace_eq (h : HasValue text value rest) :
    ∃ c cs, skipSpace text = c :: cs ∧
      c ≠ ']' ∧ c ≠ ')' ∧ c ≠ '\x7d' ∧ c ≠ ',' ∧ c ≠ ':' := by
  cases h with
  | quoted hs hquote h => rcases hquote with rfl | rfl <;> exact ⟨_, _, hs, by decide⟩
  | list hs h => exact ⟨_, _, hs, by decide⟩
  | parenthesised hs h => exact ⟨_, _, hs, by decide⟩
  | dict hs h => exact ⟨_, _, hs, by decide⟩
  | @number _ cs c _ hs hstart =>
    refine ⟨c, cs, hs, ?_⟩
    refine ⟨?_, ?_, ?_, ?_, ?_⟩ <;> rintro rfl <;> exact absurd hstart (by decide)
  | @constant _ cs c _ hs hletter =>
    refine ⟨c, cs, hs, ?_⟩
    refine ⟨?_, ?_, ?_, ?_, ?_⟩ <;> rintro rfl <;> exact absurd hletter (by decide)

end HasValue

/-! ## What the reader does -/

/-- What was read is as the relation says, and what was refused was refused at a place of the
text. -/
def Accounts {α : Type} (R : α → List Char → Prop) (text : List Char) :
    Except Fault (Taken α text) → Prop
  | .ok taken => R taken.value taken.rest ∧ taken.rest <:+ text
  | .error fault => fault.rest <:+ text

theorem Accounts.lift {α β : Type} {R : α → List Char → Prop} {R' : β → List Char → Prop}
    {inner text : List Char} {x : Except Fault (Taken α inner)} (h : Accounts R inner x)
    (hsuffix : inner <:+ text) (f : α → β) (hvalue : ∀ a rest, R a rest → R' (f a) rest)
    (hle : inner.length ≤ text.length) : Accounts R' text (x.map fun r => r.lift hle f) := by
  cases x with
  | error fault => exact List.IsSuffix.trans h hsuffix
  | ok taken => exact ⟨hvalue _ _ h.1, h.2.trans hsuffix⟩

theorem accounts_readQuoted (quote : Char) (cs : List Char) :
    Accounts (fun value rest => ∃ name, quoted quote cs = some (name, rest) ∧
      value = str (String.ofList name)) (quote :: cs) (readQuoted quote cs) := by
  rw [readQuoted]
  split
  next r hr => exact ⟨⟨r.1, hr, rfl⟩, (suffix_of_quoted hr).trans (List.suffix_cons quote cs)⟩
  next => exact List.suffix_cons quote cs

theorem accounts_readNumber (c : Char) (cs : List Char) :
    let n := numeral (c == '.') (Decimal.isDigit c) cs
    Accounts (fun value rest => n.hasDigit = true ∧
      ofNumeral (c :: n.text) n.isDecimal = .ok value ∧ rest = n.rest) (c :: cs)
      (readNumber c cs) := by
  intro n
  have hrest : n.rest <:+ cs := ⟨n.text, text_append_rest_numeral _ _ cs⟩
  have hsuffix : n.rest <:+ c :: cs := hrest.trans (List.suffix_cons c cs)
  simp only [readNumber]
  split
  next hdigit =>
    split
    next hvalue => exact ⟨⟨hdigit, hvalue, rfl⟩, hsuffix⟩
    next => exact hsuffix
  next => exact List.suffix_rfl

theorem accounts_readConstant (c : Char) (cs : List Char) :
    Accounts (fun value rest => constant? (c :: cs.takeWhile isWordChar) = some value ∧
      rest = cs.dropWhile isWordChar) (c :: cs) (readConstant c cs) := by
  simp only [readConstant]
  split
  next hvalue =>
    exact ⟨⟨hvalue, rfl⟩, (List.dropWhile_suffix isWordChar).trans (List.suffix_cons c cs)⟩
  next => exact List.suffix_rfl

mutual

theorem accounts_readValue (text : List Char) :
    Accounts (HasValue text) text (readValue text) := by
  rw [readValue]
  split
  next => exact List.nil_suffix
  next c cs hskip =>
    have hsuffix : c :: cs <:+ text := hskip ▸ skipSpace_suffix text
    have htail : cs <:+ text := (List.suffix_cons c cs).trans hsuffix
    have hlt : cs.length < text.length := hsuffix.length_le
    simp only
    split
    next hquote =>
      refine (accounts_readQuoted c cs).lift hsuffix id ?_ _
      rintro _ rest ⟨name, h, rfl⟩
      exact .quoted hskip hquote h
    split
    next hc =>
      subst hc
      exact (accounts_readItems ']' [] cs).lift htail _ (fun _ _ h => .list hskip h) _
    split
    next hc =>
      subst hc
      exact (accounts_readItems ')' [] cs).lift htail _ (fun _ _ h => .parenthesised hskip h) _
    split
    next hc =>
      subst hc
      exact (accounts_readEntries Dict.empty cs).lift htail _ (fun _ _ h => .dict hskip h) _
    split
    next hstart =>
      refine (accounts_readNumber c cs).lift hsuffix id ?_ _
      rintro value _ ⟨hdigit, hvalue, rfl⟩
      exact .number hskip hstart hdigit hvalue
    split
    next hletter =>
      refine (accounts_readConstant c cs).lift hsuffix id ?_ _
      rintro value _ ⟨hvalue, rfl⟩
      exact .constant hskip hletter hvalue
    next => exact hsuffix
termination_by (text.length, 0)

theorem accounts_readItems (bracket : Char) (before : List Literal) (text : List Char) :
    Accounts (fun items rest => HasItems bracket before text items.1 items.2 rest) text
      (readItems bracket before text) := by
  rw [readItems]
  split
  next hclose => exact ⟨.close hclose, suffix_of_eat? hclose⟩
  next hopen =>
    have hvalue := accounts_readValue text
    split
    next hread =>
      rw [hread] at hvalue
      exact hvalue
    next item hread =>
      rw [hread] at hvalue
      obtain ⟨hitem, hafter⟩ := hvalue
      have hshorter := item.shorter
      simp only
      split
      next later hcomma =>
        have hlater := (suffix_of_eat? hcomma).trans hafter
        have hlt := length_lt_of_eat? hcomma
        exact (accounts_readItems bracket (before ++ [item.value]) later).lift hlater _
          (fun _ _ h => .more hopen hitem hcomma h) _
      next hcomma =>
        split
        next hclose =>
          exact ⟨.last hopen hitem hcomma hclose, (suffix_of_eat? hclose).trans hafter⟩
        next => exact (skipSpace_suffix _).trans hafter
termination_by (text.length, 1)

theorem accounts_readEntries (before : Dict) (text : List Char) :
    Accounts (HasEntries before text) text (readEntries before text) := by
  rw [readEntries]
  split
  next hclose => exact ⟨.close hclose, suffix_of_eat? hclose⟩
  next hopen =>
    have hkey := accounts_readValue text
    split
    next hread =>
      rw [hread] at hkey
      exact hkey
    next key hread =>
      rw [hread] at hkey
      obtain ⟨hkey, hafterKey⟩ := hkey
      have hshorter := key.shorter
      simp only
      split
      next hisKey =>
        split
        next => exact (skipSpace_suffix _).trans hafterKey
        next valueText hcolon =>
          have hvalueText := (suffix_of_eat? hcolon).trans hafterKey
          have hlt := length_lt_of_eat? hcolon
          have hvalue := accounts_readValue valueText
          split
          next hread' =>
            rw [hread'] at hvalue
            exact List.IsSuffix.trans hvalue hvalueText
          next value hread' =>
            rw [hread'] at hvalue
            obtain ⟨hvalue, hafter⟩ := hvalue
            replace hafter := hafter.trans hvalueText
            have hshorter' := value.shorter
            split
            next later hcomma =>
              have hlater := (suffix_of_eat? hcomma).trans hafter
              have hlt' := length_lt_of_eat? hcomma
              exact (accounts_readEntries (before.put key.value value.value) later).lift hlater _
                (fun _ _ h => .more hopen hkey hisKey hcolon hvalue hcomma h) _
            next hcomma =>
              split
              next hclose =>
                exact ⟨.last hopen hkey hisKey hcolon hvalue hcomma hclose,
                  (suffix_of_eat? hclose).trans hafter⟩
              next => exact (skipSpace_suffix _).trans hafter
      next => exact hafterKey
termination_by (text.length, 1)

end

/-! ## What the reader accepts -/

section

variable {text cs rest : List Char} {c : Char}

theorem reads_parenthesised {taken : Taken (List Literal × Bool) cs}
    (hskip : skipSpace text = '(' :: cs) (hread : readItems ')' [] cs = .ok taken) :
    Reads text (ofParenthesised taken.value.1 taken.value.2) taken.rest := by
  rw [Reads, readValue]
  split
  next hnil => cases hskip.symm.trans hnil
  next hcons =>
    cases hskip.symm.trans hcons
    simp only [hread]
    exact ⟨_, rfl, rfl, rfl⟩

/-- A character that starts a number starts no other value. -/
theorem ne_of_startsNumber (h : startsNumber c = true) :
    ¬(c = '\'' ∨ c = '"') ∧ c ≠ '[' ∧ c ≠ '(' ∧ c ≠ '\x7b' := by
  refine ⟨?_, ?_, ?_, ?_⟩
  · rintro (rfl | rfl) <;> cases h
  all_goals
    rintro rfl
    cases h

/-- A capital letter starts nothing but a constant. -/
theorem ne_of_capital (h : 'A' ≤ c ∧ c ≤ 'Z') :
    ¬(c = '\'' ∨ c = '"') ∧ c ≠ '[' ∧ c ≠ '(' ∧ c ≠ '\x7b' ∧ ¬startsNumber c = true := by
  refine ⟨?_, ?_, ?_, ?_, fun hstart => ?_⟩
  · rintro (rfl | rfl) <;> exact absurd h (by decide)
  · rintro rfl
    exact absurd h (by decide)
  · rintro rfl
    exact absurd h (by decide)
  · rintro rfl
    exact absurd h (by decide)
  · simp only [startsNumber, Decimal.isDigit, Bool.or_eq_true, beq_iff_eq, Bool.and_eq_true,
      decide_eq_true_eq] at hstart
    rcases hstart with ((rfl | rfl) | rfl) | hdigit
    · exact absurd h (by decide)
    · exact absurd h (by decide)
    · exact absurd h (by decide)
    · exact absurd (Char.le_trans h.1 hdigit.2) (by decide)

theorem reads_number {taken : Taken Literal (c :: cs)} (hskip : skipSpace text = c :: cs)
    (hstart : startsNumber c = true) (hread : readNumber c cs = .ok taken) :
    Reads text taken.value taken.rest := by
  obtain ⟨hquote, hlist, hparen, hbrace⟩ := ne_of_startsNumber hstart
  rw [Reads, readValue]
  split
  next hnil => cases hskip.symm.trans hnil
  next hcons =>
    cases hskip.symm.trans hcons
    simp only [if_neg hquote, if_neg hlist, if_neg hparen, if_neg hbrace, if_pos hstart, hread]
    exact ⟨_, rfl, rfl, rfl⟩

theorem reads_constant {taken : Taken Literal (c :: cs)} (hskip : skipSpace text = c :: cs)
    (hletter : 'A' ≤ c ∧ c ≤ 'Z') (hread : readConstant c cs = .ok taken) :
    Reads text taken.value taken.rest := by
  obtain ⟨hquote, hlist, hparen, hbrace, hstart⟩ := ne_of_capital hletter
  rw [Reads, readValue]
  split
  next hnil => cases hskip.symm.trans hnil
  next hcons =>
    cases hskip.symm.trans hcons
    simp only [if_neg hquote, if_neg hlist, if_neg hparen, if_neg hbrace, if_neg hstart,
      if_pos hletter, hread]
    exact ⟨_, rfl, rfl, rfl⟩

end

/-- The reader takes the items off the front of the text. -/
def TakesItems (bracket : Char) (before : List Literal) (text : List Char) (items : List Literal)
    (comma : Bool) (rest : List Char) : Prop :=
  ∃ taken, readItems bracket before text = .ok taken ∧ taken.value = (items, comma) ∧
    taken.rest = rest

section

variable {bracket : Char} {before items : List Literal} {text after rest : List Char}
  {item : Literal} {comma : Bool}

theorem TakesItems.close (hclose : eat? bracket text = some rest) :
    TakesItems bracket before text before (!before.isEmpty) rest := by
  rw [TakesItems, readItems]
  split
  next hsome =>
    cases hclose.symm.trans hsome
    exact ⟨_, rfl, rfl, rfl⟩
  next hnone => cases hclose.symm.trans hnone

theorem TakesItems.more {later : List Char} (hopen : eat? bracket text = none)
    (hitem : Reads text item after) (hcomma : eat? ',' after = some later)
    (hrest : TakesItems bracket (before ++ [item]) later items comma rest) :
    TakesItems bracket before text items comma rest := by
  obtain ⟨taken, hread, rfl, rfl⟩ := hitem
  obtain ⟨others, hread', hvalue, rfl⟩ := hrest
  rw [TakesItems, readItems]
  split
  next hsome => cases hopen.symm.trans hsome
  next =>
    simp only [hread]
    split
    next hsome =>
      cases hcomma.symm.trans hsome
      rw [hread']
      exact ⟨_, rfl, hvalue, rfl⟩
    next hnone => cases hcomma.symm.trans hnone

theorem TakesItems.last (hopen : eat? bracket text = none) (hitem : Reads text item after)
    (hcomma : eat? ',' after = none) (hclose : eat? bracket after = some rest) :
    TakesItems bracket before text (before ++ [item]) false rest := by
  obtain ⟨taken, hread, rfl, rfl⟩ := hitem
  rw [TakesItems, readItems]
  split
  next hsome => cases hopen.symm.trans hsome
  next =>
    simp only [hread]
    split
    next hsome => cases hcomma.symm.trans hsome
    next =>
      split
      next hsome =>
        cases hclose.symm.trans hsome
        exact ⟨_, rfl, rfl, rfl⟩
      next hnone => cases hclose.symm.trans hnone

end

theorem ReadsEntries.close {before : Dict} {text rest : List Char}
    (hclose : eat? '\x7d' text = some rest) : ReadsEntries before text before rest := by
  rw [ReadsEntries, readEntries]
  split
  next hsome =>
    cases hclose.symm.trans hsome
    exact ⟨_, rfl, rfl, rfl⟩
  next hnone => cases hclose.symm.trans hnone

mutual

/-- The reader reads what the grammar allows. -/
theorem reads_of_hasValue {text rest : List Char} {value : Literal}
    (h : HasValue text value rest) : Reads text value rest := by
  match h with
  | .quoted hskip hquote h => exact .quoted _ rest hskip hquote (by rw [h, String.toList_ofList])
  | .list hskip h =>
    obtain ⟨taken, hread, hvalue, hrest⟩ := takes_of_hasItems h
    exact .list hskip ⟨taken, hread, congrArg Prod.fst hvalue, hrest⟩
  | .parenthesised hskip h =>
    obtain ⟨taken, hread, hvalue, rfl⟩ := takes_of_hasItems h
    have hreads := reads_parenthesised hskip hread
    rwa [hvalue] at hreads
  | .dict hskip h => exact .dict hskip (reads_of_hasEntries h)
  | @HasValue.number _ cs c _ hskip hstart hdigit hvalue =>
    obtain ⟨taken, hread, rfl, hrest⟩ : ∃ taken, readNumber c cs = .ok taken ∧
        taken.value = value ∧ taken.rest = (numeral (c == '.') (Decimal.isDigit c) cs).rest := by
      simp only [readNumber, if_pos hdigit, hvalue]
      exact ⟨_, rfl, rfl, rfl⟩
    rw [← hrest]
    exact reads_number hskip hstart hread
  | @HasValue.constant _ cs c _ hskip hletter hvalue =>
    obtain ⟨taken, hread, rfl, hrest⟩ : ∃ taken, readConstant c cs = .ok taken ∧
        taken.value = value ∧ taken.rest = cs.dropWhile isWordChar := by
      simp only [readConstant, hvalue]
      exact ⟨_, rfl, rfl, rfl⟩
    rw [← hrest]
    exact reads_constant hskip hletter hread
termination_by structural h

theorem takes_of_hasItems {bracket : Char} {before items : List Literal} {text rest : List Char}
    {comma : Bool} (h : HasItems bracket before text items comma rest) :
    TakesItems bracket before text items comma rest := by
  match h with
  | .close hclose => exact .close hclose
  | .more hopen hitem hcomma hrest =>
    exact .more hopen (reads_of_hasValue hitem) hcomma (takes_of_hasItems hrest)
  | .last hopen hitem hcomma hclose => exact .last hopen (reads_of_hasValue hitem) hcomma hclose
termination_by structural h

theorem reads_of_hasEntries {before d : Dict} {text rest : List Char}
    (h : HasEntries before text d rest) : ReadsEntries before text d rest := by
  match h with
  | .close hclose => exact .close hclose
  | .more hopen hkey hisKey hcolon hvalue hcomma hrest =>
    exact .more hopen (reads_of_hasValue hkey) hisKey hcolon (reads_of_hasValue hvalue) hcomma
      (reads_of_hasEntries hrest)
  | .last hopen hkey hisKey hcolon hvalue hcomma hclose =>
    exact .last hopen (reads_of_hasValue hkey) hisKey hcolon (reads_of_hasValue hvalue) hcomma
      hclose
termination_by structural h

end

/-- The reader reads exactly what the grammar allows. -/
theorem reads_iff {text rest : List Char} {value : Literal} :
    Reads text value rest ↔ HasValue text value rest := by
  refine ⟨?_, reads_of_hasValue⟩
  rintro ⟨taken, hread, rfl, rfl⟩
  have haccounts := accounts_readValue text
  rw [hread] at haccounts
  exact haccounts.1

/-- What is refused is refused at a place of the text. -/
theorem rest_suffix_of_error {text : List Char} {fault : Fault}
    (h : readValue text = .error fault) : fault.rest <:+ text := by
  have haccounts := accounts_readValue text
  rwa [h] at haccounts

end Conditioning.Literal
