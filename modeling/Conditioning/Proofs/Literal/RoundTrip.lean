import Conditioning.Proofs.Literal.Doubles

/-!
# Reading what is written

A literal is read back from its text (`parse_toText`) if its texts need no
escapes, its doubles are finite, and the keys of its dicts are keys and differ.
The texts of items, keys and values are each followed by a comma, a colon or a
closing bracket, at which each of them ends; so the text of a literal is read by
induction on the literal.
-/

namespace Conditioning.Literal

/-! ## Literals that can be written -/

/-- A text that stands in single quotes as it is. -/
def IsPlain (text : String) : Prop :=
  ∀ c ∈ text.toList, c ≠ '\'' ∧ c ≠ '\\' ∧ c ≠ '\n'

/-- No key is the same as a later one. -/
def DistinctKeys (entries : List (Literal × Literal)) : Prop :=
  entries.Pairwise fun entry later => entry.1.same later.1 = false

mutual

/-- Texts are plain, doubles are finite, and dicts have distinct keys, at every depth. -/
def Printable : Literal → Prop
  | null => True
  | bool _ => True
  | int _ => True
  | float value => value.isFinite = true
  | str text => IsPlain text
  | list items => PrintableItems items
  | tuple items => PrintableItems items
  | dict entries => DistinctKeys entries ∧ PrintableEntries entries

def PrintableItems : List Literal → Prop
  | [] => True
  | item :: items => Printable item ∧ PrintableItems items

def PrintableEntries : List (Literal × Literal) → Prop
  | [] => True
  | (key, value) :: entries =>
    key.isKey = true ∧ Printable key ∧ Printable value ∧ PrintableEntries entries

end

/-! ## Numbers -/

/-- A number that begins with a digit, with a minus in front or without. -/
theorem hasValue_signed {negative isDecimal : Bool} {d : Char} {ds : List Char} {value : Literal}
    (hdigit : Decimal.isDigit d = true)
    (hnumeral : numeral false true ds = ⟨ds, isDecimal, true, []⟩)
    (hvalue : ofNumeral (signed negative (d :: ds)) isDecimal = .ok value) :
    HasValue (signed negative (d :: ds)) value [] := by
  cases negative with
  | true => exact .of_minus hdigit hnumeral hvalue
  | false => exact .of_digit hdigit hnumeral hvalue

theorem exists_digits_eq_cons (n : Nat) :
    ∃ d ds, Decimal.digits n = d :: ds ∧ ∀ c ∈ d :: ds, Decimal.isDigit c = true := by
  obtain ⟨d, ds, hds⟩ := List.exists_cons_of_ne_nil (Decimal.digits_ne_nil n)
  exact ⟨d, ds, hds, hds ▸ fun c hc => Decimal.isDigit_of_mem_digits hc⟩

theorem toList_integerText (n : Int) :
    (Decimal.integerText n).toList = signed (decide (n < 0)) (Decimal.digits n.natAbs) := by
  rw [Decimal.integerText, String.toList_ofList]
  by_cases h : n < 0 <;> simp [signed, h]

theorem hasValue_int (value : Int64) : HasValue (int value).toText.toList (int value) [] := by
  have hread : Decimal.readInteger? (Decimal.integerText value.toInt).toList =
      some value.toInt := by
    rw [toList_integerText, readInteger?_signed _ (Decimal.digits_ne_nil _) fun _ =>
      Decimal.isDigit_of_mem_digits, Decimal.value_digits]
    refine congrArg some ?_
    by_cases h : value.toInt < 0
    · rw [if_pos (decide_eq_true h)]
      omega
    · rw [if_neg (by simpa using h)]
      omega
  have hvalue : ofNumeral (Decimal.integerText value.toInt).toList false = .ok (int value) := by
    have hlower : -integerBound ≤ value.toInt := value.le_toInt
    have hupper : value.toInt < integerBound := value.toInt_lt
    simp only [ofNumeral, hread]
    rw [if_neg Bool.false_ne_true, if_pos ⟨hlower, hupper⟩, Int64.ofInt_toInt]
  rw [toText]
  rw [toList_integerText] at hvalue ⊢
  obtain ⟨d, ds, hds, hall⟩ := exists_digits_eq_cons value.toInt.natAbs
  rw [hds] at hvalue ⊢
  have hrest : ∀ c ∈ ds, Decimal.isDigit c = true := fun c hc => hall c (List.mem_cons_of_mem d hc)
  exact hasValue_signed (hall d List.mem_cons_self) (numeral_of_digits hrest false) hvalue

theorem hasValue_float {x : Float} (h : ReadsBack x) :
    HasValue (float x).toText.toList (float x) [] := by
  obtain ⟨⟨negative, front, back, hne, hfront, hback, htext⟩, hread⟩ := h
  obtain ⟨d, ds, rfl⟩ := List.exists_cons_of_ne_nil hne
  have hnumeral : numeral false true (ds ++ '.' :: back) = ⟨ds ++ '.' :: back, true, true, []⟩ := by
    rw [numeral_digits fun c hc => hfront c (List.mem_cons_of_mem d hc), numeral_point,
      numeral_of_digits hback]
    rfl
  have hvalue : ofNumeral (Decimal.markedText x).toList true = .ok (float x) := by
    rw [ofNumeral, hread]
    rfl
  rw [toText, htext]
  rw [htext] at hvalue
  exact hasValue_signed (hfront d List.mem_cons_self) hnumeral hvalue

/-! ## Texts -/

theorem hasValue_str {text : String} (h : IsPlain text) :
    HasValue (str text).toText.toList (str text) [] := by
  have hvalue := HasValue.of_plain (.inl rfl) h
  simpa [toText] using hvalue

/-! ## Items -/

/-- What stands in brackets with commas between. -/
def inBrackets (closing : Char) (texts : List String) : List Char :=
  (commaSeparated texts).toList ++ [closing]

theorem inBrackets_cons (closing : Char) (text next : String) (texts : List String) :
    inBrackets closing (text :: next :: texts) =
      text.toList ++ ',' :: ' ' :: inBrackets closing (next :: texts) := by
  simp [inBrackets, commaSeparated]

theorem inBrackets_singleton (closing : Char) (text : String) :
    inBrackets closing [text] = text.toList ++ [closing] := by
  simp [inBrackets, commaSeparated]

section

variable {closing : Char} {text : List Char}

theorem HasItems.of_skipSpace_eq {before items : List Literal} {comma : Bool} {rest : List Char}
    (h : HasItems closing before text items comma rest) {text' : List Char}
    (hskip : skipSpace text' = skipSpace text) :
    HasItems closing before text' items comma rest := by
  have heat : eat? closing text' = eat? closing text := by rw [eat?, eat?, hskip]
  cases h with
  | close hclose => exact .close (heat.trans hclose)
  | more hopen hitem hcomma hrest =>
    exact .more (heat.trans hopen) (hitem.of_skipSpace_eq hskip) hcomma hrest
  | last hopen hitem hcomma hclose =>
    exact .last (heat.trans hopen) (hitem.of_skipSpace_eq hskip) hcomma hclose

end

/-- The items of brackets, one after the other. -/
theorem hasItems_inBrackets {closing : Char} (hclosing : closing = ']' ∨ closing = ')')
    {item : Literal} {items : List Literal}
    (h : ∀ item' ∈ item :: items, HasValue item'.toText.toList item' []) (before : List Literal) :
    HasItems closing before (inBrackets closing (itemTexts (item :: items)))
      (before ++ item :: items) false [] := by
  have hbracket : closing = ']' ∨ closing = ')' ∨ closing = '\x7d' := by
    rcases hclosing with rfl | rfl
    · exact .inl rfl
    · exact .inr (.inl rfl)
  induction items generalizing item before with
  | nil =>
    have hparted : Parted [closing] := by
      rcases hclosing with rfl | rfl <;> exact .cons (by decide) _
    have hitem := (h item List.mem_cons_self).append hparted
    rw [itemTexts, itemTexts, inBrackets_singleton]
    refine .last (hitem.eat?_eq_none hbracket) hitem ?_ ?_
    · rcases hclosing with rfl | rfl <;> rfl
    · rcases hclosing with rfl | rfl <;> rfl
  | cons next items ih =>
    have hparted : Parted (',' :: ' ' :: inBrackets closing (itemTexts (next :: items))) :=
      .cons (by decide) _
    have hitem := (h item List.mem_cons_self).append hparted
    have hrest := ih (fun item' h' => h item' (List.mem_cons_of_mem item h')) (before ++ [item])
    rw [List.append_assoc, List.singleton_append] at hrest
    rw [itemTexts, itemTexts, inBrackets_cons]
    exact .more (hitem.eat?_eq_none hbracket) hitem rfl (hrest.of_skipSpace_eq rfl)

theorem hasValue_list {items : List Literal}
    (h : ∀ item ∈ items, HasValue item.toText.toList item []) :
    HasValue (list items).toText.toList (list items) [] := by
  have htext : (list items).toText.toList = '[' :: inBrackets ']' (itemTexts items) := by
    simp [toText, inBrackets]
  have hitems : HasItems ']' [] (inBrackets ']' (itemTexts items)) items false [] := by
    cases items with
    | nil => exact .close rfl
    | cons item items => exact hasItems_inBrackets (.inl rfl) h []
  rw [htext]
  exact .list rfl hitems

theorem hasValue_tuple {items : List Literal}
    (h : ∀ item ∈ items, HasValue item.toText.toList item []) :
    HasValue (tuple items).toText.toList (tuple items) [] := by
  match items with
  | [] =>
    have hitems : HasItems ')' [] [')'] [] false [] := .close rfl
    exact .parenthesised rfl hitems
  | [item] =>
    have htext : (tuple [item]).toText.toList = '(' :: (item.toText.toList ++ [',', ')']) := by
      simp [toText, itemTexts]
    have hparted : Parted [',', ')'] := .cons (by decide) _
    have hitem := (h item List.mem_cons_self).append hparted
    have hitems : HasItems ')' [] (item.toText.toList ++ [',', ')']) [item] true [] :=
      .more (hitem.eat?_eq_none (.inr (.inl rfl))) hitem rfl (.close rfl)
    rw [htext]
    exact .parenthesised rfl hitems
  | item :: next :: items =>
    have htext : (tuple (item :: next :: items)).toText.toList =
        '(' :: inBrackets ')' (itemTexts (item :: next :: items)) := by
      simp [toText, itemTexts, inBrackets]
    rw [htext]
    have hitems : HasItems ')' [] _ (item :: next :: items) false [] :=
      hasItems_inBrackets (.inr rfl) h []
    exact .parenthesised rfl hitems

/-! ## Entries -/

/-- A new key goes to the end. -/
theorem putEntry_of_not_same {entries : List (Literal × Literal)} {key : Literal}
    (h : ∀ entry ∈ entries, entry.1.same key = false) (value : Literal) :
    Dict.putEntry key value entries = entries ++ [(key, value)] := by
  induction entries with
  | nil => rfl
  | cons entry entries ih =>
    rw [Dict.putEntry_cons, if_neg (by simp [h entry List.mem_cons_self]),
      ih fun entry' h' => h entry' (List.mem_cons_of_mem entry h')]
    rfl

theorem HasEntries.of_skipSpace_eq {before d : Dict} {text rest : List Char}
    (h : HasEntries before text d rest) {text' : List Char}
    (hskip : skipSpace text' = skipSpace text) : HasEntries before text' d rest := by
  have heat : eat? '\x7d' text' = eat? '\x7d' text := by rw [eat?, eat?, hskip]
  cases h with
  | close hclose => exact .close (heat.trans hclose)
  | more hopen hkey hisKey hcolon hvalue hcomma hrest =>
    exact .more (heat.trans hopen) (hkey.of_skipSpace_eq hskip) hisKey hcolon hvalue hcomma hrest
  | last hopen hkey hisKey hcolon hvalue hcomma hclose =>
    exact .last (heat.trans hopen) (hkey.of_skipSpace_eq hskip) hisKey hcolon hvalue hcomma hclose

/-- The key and the value of an entry are read back from their texts. -/
structure ReadableEntry (entry : Literal × Literal) : Prop where
  isKey : entry.1.isKey = true
  key : HasValue entry.1.toText.toList entry.1 []
  value : HasValue entry.2.toText.toList entry.2 []

theorem toList_entryText (entry : Literal × Literal) (tail : List Char) :
    (entry.1.toText ++ ": " ++ entry.2.toText).toList ++ tail =
      entry.1.toText.toList ++ ':' :: ' ' :: (entry.2.toText.toList ++ tail) := by
  simp

namespace ReadableEntry

variable {entry : Literal × Literal} {tail : List Char}

theorem hasKey (h : ReadableEntry entry) :
    HasValue ((entry.1.toText ++ ": " ++ entry.2.toText).toList ++ tail) entry.1
      (':' :: ' ' :: (entry.2.toText.toList ++ tail)) := by
  rw [toList_entryText]
  exact h.key.append (.cons (by decide) _)

theorem hasValue (h : ReadableEntry entry) (htail : Parted tail) :
    HasValue (' ' :: (entry.2.toText.toList ++ tail)) entry.2 tail :=
  (h.value.append htail).of_skipSpace_eq rfl

end ReadableEntry

/-- The entries of a dict, one after the other. -/
theorem hasEntries_inBrackets {entry : Literal × Literal} {entries : List (Literal × Literal)}
    (h : ∀ entry' ∈ entry :: entries, ReadableEntry entry') {before : List (Literal × Literal)}
    (hdistinct : DistinctKeys (before ++ entry :: entries)) :
    HasEntries ⟨before⟩ (inBrackets '\x7d' (entryTexts (entry :: entries)))
      ⟨before ++ entry :: entries⟩ [] := by
  have hnew : ∀ entry' ∈ before, entry'.1.same entry.1 = false := fun entry' h' =>
    (List.pairwise_append.1 hdistinct).2.2 entry' h' entry List.mem_cons_self
  have hput : Dict.put ⟨before⟩ entry.1 entry.2 = ⟨before ++ [entry]⟩ :=
    congrArg Dict.mk (putEntry_of_not_same hnew entry.2)
  have hentry := h entry List.mem_cons_self
  have hbracket : '\x7d' = ']' ∨ '\x7d' = ')' ∨ '\x7d' = '\x7d' := .inr (.inr rfl)
  induction entries generalizing entry before with
  | nil =>
    have hparted : Parted ['\x7d'] := .cons (by decide) []
    rw [entryTexts, entryTexts, inBrackets_singleton, ← hput]
    exact .last (hentry.hasKey.eat?_eq_none hbracket) hentry.hasKey hentry.isKey rfl
      (hentry.hasValue hparted) rfl rfl
  | cons next entries ih =>
    have hparted : Parted (',' :: ' ' :: inBrackets '\x7d' (entryTexts (next :: entries))) :=
      .cons (by decide) _
    have hdistinct' : DistinctKeys ((before ++ [entry]) ++ next :: entries) := by
      rwa [List.append_assoc, List.singleton_append]
    have hnext : ∀ entry' ∈ before ++ [entry], entry'.1.same next.1 = false := fun entry' h' =>
      (List.pairwise_append.1 hdistinct').2.2 entry' h' next List.mem_cons_self
    have hrest := ih (fun entry' h' => h entry' (List.mem_cons_of_mem entry h')) hdistinct' hnext
      (congrArg Dict.mk (putEntry_of_not_same hnext next.2))
      (h next (List.mem_cons_of_mem entry List.mem_cons_self))
    rw [List.append_assoc, List.singleton_append, ← hput] at hrest
    rw [entryTexts, entryTexts, inBrackets_cons]
    exact .more (hentry.hasKey.eat?_eq_none hbracket) hentry.hasKey hentry.isKey rfl
      (hentry.hasValue hparted) rfl (hrest.of_skipSpace_eq rfl)

theorem hasValue_dict {entries : List (Literal × Literal)}
    (h : ∀ entry ∈ entries, ReadableEntry entry) (hdistinct : DistinctKeys entries) :
    HasValue (dict entries).toText.toList (dict entries) [] := by
  have htext : (dict entries).toText.toList = '\x7b' :: inBrackets '\x7d' (entryTexts entries) := by
    simp [toText, inBrackets]
  rw [htext]
  cases entries with
  | nil =>
    have hentries : HasEntries Dict.empty ['\x7d'] Dict.empty [] := .close rfl
    exact .dict rfl hentries
  | cons entry entries =>
    have hdistinct' : DistinctKeys ([] ++ entry :: entries) := hdistinct
    exact .dict rfl (hasEntries_inBrackets h hdistinct')

/-! ## Literals -/

/-- A word that is a constant from its first character to its last. -/
theorem hasValue_word {c : Char} {cs : List Char} {value : Literal} (hletter : 'A' ≤ c ∧ c ≤ 'Z')
    (hword : ∀ d ∈ cs, isWordChar d = true) (hvalue : constant? (c :: cs) = some value) :
    HasValue (c :: cs) value [] := by
  have htake : cs.takeWhile isWordChar = cs := List.takeWhile_eq_self_iff.2 hword
  have hspace : isSpace c = false := by
    rw [Bool.eq_false_iff]
    intro hspace
    simp only [isSpace, Bool.or_eq_true, beq_iff_eq] at hspace
    rcases hspace with ((rfl | rfl) | rfl) | rfl <;> exact absurd hletter (by decide)
  have h := HasValue.constant (skipSpace_cons hspace cs) hletter (htake.symm ▸ hvalue)
  rwa [List.dropWhile_eq_nil_iff.2 hword] at h

mutual

theorem hasValue_toText (value : Literal) (h : value.Printable) :
    HasValue value.toText.toList value [] := by
  match value, h with
  | null, _ => exact hasValue_word (by decide) (List.all_eq_true.1 rfl) rfl
  | bool true, _ => exact hasValue_word (by decide) (List.all_eq_true.1 rfl) rfl
  | bool false, _ => exact hasValue_word (by decide) (List.all_eq_true.1 rfl) rfl
  | int value, _ => exact hasValue_int value
  | float value, h => exact hasValue_float (readsBack_of_isFinite h)
  | str text, h => exact hasValue_str h
  | list items, h => exact hasValue_list (hasValue_items items h)
  | tuple items, h => exact hasValue_tuple (hasValue_items items h)
  | dict entries, h => exact hasValue_dict (readable_entries entries h.2) h.1

theorem hasValue_items (items : List Literal) (h : PrintableItems items) :
    ∀ item ∈ items, HasValue item.toText.toList item [] := by
  match items, h with
  | [], _ => exact fun _ h' => nomatch h'
  | item :: items, h =>
    intro item' h'
    rcases List.mem_cons.1 h' with heq | h'
    · rw [heq]
      exact hasValue_toText item h.1
    · exact hasValue_items items h.2 item' h'

theorem readable_entries (entries : List (Literal × Literal)) (h : PrintableEntries entries) :
    ∀ entry ∈ entries, ReadableEntry entry := by
  match entries, h with
  | [], _ => exact fun _ h' => nomatch h'
  | (key, value) :: entries, h =>
    intro entry' h'
    rcases List.mem_cons.1 h' with heq | h'
    · rw [heq]
      exact ⟨h.1, hasValue_toText key h.2.1, hasValue_toText value h.2.2.1⟩
    · exact readable_entries entries h.2.2.2 entry' h'

end

/-- A literal is read back from its text. -/
theorem parse_toText {value : Literal} (h : value.Printable) : parse value.toText = .ok value :=
  parse_of_hasValue (hasValue_toText value h) rfl

theorem parse_toText_nested :
    Printable (dict [(str "rate", float 0.25), (int 1, list [tuple [bool true], tuple []])]) ∧
    parse (dict [(str "rate", float 0.25), (int 1, list [tuple [bool true], tuple []])]).toText =
      .ok (dict [(str "rate", float 0.25), (int 1, list [tuple [bool true], tuple []])]) := by
  have hdistinct : DistinctKeys
      [(str "rate", float 0.25), (int 1, list [tuple [bool true], tuple []])] :=
    List.pairwise_pair.2 (by decide)
  have hfinite : (0.25 : Float).isFinite = true := by decide +kernel
  have hplain : IsPlain "rate" := by simp [IsPlain]
  have h : Printable
      (dict [(str "rate", float 0.25), (int 1, list [tuple [bool true], tuple []])]) :=
    ⟨hdistinct, rfl, hplain, hfinite, rfl, trivial, ⟨⟨trivial, trivial⟩, trivial, trivial⟩, trivial⟩
  exact ⟨h, parse_toText h⟩

end Conditioning.Literal
