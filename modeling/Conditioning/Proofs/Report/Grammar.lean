import Conditioning.Proofs.Phase.Numbers
import Conditioning.Report.Json

/-!
# The grammar of JSON

What a text says as JSON (RFC 8259): `HasValue text value rest` says that the text
begins with a value and that the rest follows it.  The relations say nothing of how
a value is written here, and they leave out nothing that may be written: blanks may
stand between all signs, every escape may stand in a text, and a number may have a
fraction and a power of ten.

A number goes on as far as its characters do, so it is followed by none of them.  It
is a natural number if it is nothing but digits, and else the nearest double.

A text says no more than one value (`Says.unique`).
-/

namespace Conditioning.Json

open Literal (skipSpace signed)
open PhaseText (IsDigits OptionalPower isNumeric)

/-! ## Texts -/

/-- The value of a hexadecimal digit. -/
def hexValue? (c : Char) : Option Nat :=
  if '0' ≤ c ∧ c ≤ '9' then some (c.toNat - 48)
  else if 'a' ≤ c ∧ c ≤ 'f' then some (c.toNat - 87)
  else if 'A' ≤ c ∧ c ≤ 'F' then some (c.toNat - 55)
  else none

/-- The number of four hexadecimal digits. -/
def unit? (a b c d : Char) : Option Nat := do
  return 4096 * (← hexValue? a) + 256 * (← hexValue? b) + 16 * (← hexValue? c) + (← hexValue? d)

/-- The character that a backslash and a mark stand for. -/
def escaped? : Char → Option Char
  | '"' => some '"'
  | '\\' => some '\\'
  | '/' => some '/'
  | 'b' => some (Char.ofNat 8)
  | 'f' => some (Char.ofNat 12)
  | 'n' => some '\n'
  | 'r' => some '\r'
  | 't' => some '\t'
  | _ => none

/-- The text begins with a character, as it is or escaped.  Characters beyond four hexadecimal
digits are escaped as two numbers that are no characters. -/
inductive HasChar : List Char → Char → List Char → Prop where
  | plain {c : Char} {rest : List Char} (hquote : c ≠ '"') (hescape : c ≠ '\\')
      (hcontrol : 32 ≤ c.toNat) : HasChar (c :: rest) c rest
  | short {mark c : Char} {rest : List Char} (hmark : escaped? mark = some c) :
      HasChar ('\\' :: mark :: rest) c rest
  | unit {a b c d : Char} {n : Nat} {rest : List Char} (hunit : unit? a b c d = some n)
      (hvalid : n.isValidChar) : HasChar ('\\' :: 'u' :: a :: b :: c :: d :: rest) (Char.ofNat n) rest
  | pair {a b c d a' b' c' d' : Char} {n n' : Nat} {rest : List Char}
      (hunit : unit? a b c d = some (55296 + n)) (hn : n < 1024)
      (hunit' : unit? a' b' c' d' = some (56320 + n')) (hn' : n' < 1024) :
      HasChar ('\\' :: 'u' :: a :: b :: c :: d :: '\\' :: 'u' :: a' :: b' :: c' :: d' :: rest)
        (Char.ofNat (65536 + 1024 * n + n')) rest

/-- The text begins with characters up to a closing quote. -/
inductive HasText : List Char → List Char → List Char → Prop where
  | close {rest : List Char} : HasText ('"' :: rest) [] rest
  | char {text after cs rest : List Char} {c : Char} (hc : HasChar text c after)
      (hcs : HasText after cs rest) : HasText text (c :: cs) rest

theorem HasChar.exists_cons {text rest : List Char} {c : Char} (h : HasChar text c rest) :
    ∃ d ds, text = d :: ds ∧ d ≠ '"' := by
  cases h with
  | plain hquote => exact ⟨_, _, rfl, hquote⟩
  | short | unit | pair => exact ⟨_, _, rfl, by decide⟩

theorem HasChar.unique {text rest rest' : List Char} {c c' : Char} (h : HasChar text c rest)
    (h' : HasChar text c' rest') : c = c' ∧ rest = rest' := by
  cases h with
  | plain _ hescape =>
    cases h' with
    | plain => exact ⟨rfl, rfl⟩
    | short | unit | pair => exact absurd rfl hescape
  | short hmark =>
    cases h' with
    | plain _ hescape => exact absurd rfl hescape
    | short hmark' =>
      cases hmark.symm.trans hmark'
      exact ⟨rfl, rfl⟩
    | unit | pair => cases hmark
  | unit hunit hvalid =>
    cases h' with
    | plain _ hescape => exact absurd rfl hescape
    | short hmark => cases hmark
    | unit hunit' =>
      cases hunit.symm.trans hunit'
      exact ⟨rfl, rfl⟩
    | pair hunit' hn =>
      -- half of a pair is no character
      cases hunit.symm.trans hunit'
      rcases hvalid with hvalid | hvalid <;> omega
  | pair hunit hn hlow =>
    cases h' with
    | plain _ hescape => exact absurd rfl hescape
    | short hmark => cases hmark
    | unit hunit' hvalid =>
      cases hunit.symm.trans hunit'
      rcases hvalid with hvalid | hvalid <;> omega
    | pair hunit' _ hlow' =>
      have hhigh := Nat.add_left_cancel (Option.some.inj (hunit.symm.trans hunit'))
      have hlow := Nat.add_left_cancel (Option.some.inj (hlow.symm.trans hlow'))
      rw [hhigh, hlow]
      exact ⟨rfl, rfl⟩

theorem HasText.unique {text cs cs' rest rest' : List Char} (h : HasText text cs rest)
    (h' : HasText text cs' rest') : cs = cs' ∧ rest = rest' := by
  induction h generalizing cs' rest' with
  | close =>
    cases h' with
    | close => exact ⟨rfl, rfl⟩
    | char hc =>
      obtain ⟨d, ds, heq, hne⟩ := hc.exists_cons
      cases heq
      exact absurd rfl hne
  | char hc _ ih =>
    cases h' with
    | close =>
      obtain ⟨d, ds, heq, hne⟩ := hc.exists_cons
      cases heq
      exact absurd rfl hne
    | char hc' hcs' =>
      obtain ⟨rfl, rfl⟩ := hc.unique hc'
      obtain ⟨rfl, rfl⟩ := ih hcs'
      exact ⟨rfl, rfl⟩

/-! ## Numbers -/

/-- Digits, with no zero in front of others. -/
structure IsWhole (ds : List Char) : Prop extends IsDigits ds where
  eq_zero : ds.head? = some '0' → ds = ['0']

/-- A point and digits, or nothing. -/
inductive IsFraction : List Char → Prop where
  | absent : IsFraction []
  | present {ds : List Char} (hds : IsDigits ds) : IsFraction ('.' :: ds)

/-- A number: a minus if it has one, a whole number, a fraction and a power of ten. -/
inductive IsNumber : List Char → Prop where
  | mk (negative : Bool) {whole fraction power : List Char} {e : Int} (hwhole : IsWhole whole)
      (hfraction : IsFraction fraction) (hpower : OptionalPower power e) :
      IsNumber (signed negative (whole ++ (fraction ++ power)))

/-- The value of a number. -/
def ofNumber? (word : List Char) : Option Json :=
  if word.all Decimal.isDigit then some (.natural (Decimal.value word))
  else (Decimal.readDouble? word).map .number

/-- No number goes on in the text. -/
def Ends (rest : List Char) : Prop :=
  ∀ c ∈ rest.head?, isNumeric c = false

theorem IsFraction.isNumeric {cs : List Char} (h : IsFraction cs) :
    ∀ c ∈ cs, isNumeric c = true := by
  cases h with
  | absent => exact fun _ hc => nomatch hc
  | present hds =>
    intro c hc
    rcases List.mem_cons.1 hc with rfl | hc
    · rfl
    · exact PhaseText.isNumeric_of_isDigit (hds.isDigit c hc)

namespace IsNumber

variable {word word' rest rest' : List Char}

theorem isNumeric (h : IsNumber word) : ∀ c ∈ word, isNumeric c = true := by
  obtain @⟨negative, whole, fraction, power, e, hwhole, hfraction, hpower⟩ := h
  have hbody : ∀ c ∈ whole ++ (fraction ++ power), PhaseText.isNumeric c = true := by
    intro c hc
    rcases List.mem_append.1 hc with hc | hc
    · exact PhaseText.isNumeric_of_isDigit (hwhole.isDigit c hc)
    rcases List.mem_append.1 hc with hc | hc
    · exact hfraction.isNumeric c hc
    · exact hpower.isNumeric c hc
  cases negative with
  | true =>
    intro c hc
    rcases List.mem_cons.1 hc with rfl | hc
    · rfl
    · exact hbody c hc
  | false => exact hbody

theorem exists_cons (h : IsNumber word) :
    ∃ c cs, word = c :: cs ∧ (c = '-' ∨ Decimal.isDigit c = true) := by
  obtain ⟨negative, hwhole, -, -⟩ := h
  cases negative with
  | true => exact ⟨_, _, rfl, .inl rfl⟩
  | false =>
    obtain ⟨d, ds, rfl⟩ := List.exists_cons_of_ne_nil hwhole.ne_nil
    exact ⟨d, _, rfl, .inr (hwhole.isDigit d List.mem_cons_self)⟩

/-- A number begins with a minus or a digit. -/
theorem not_begins {c : Char} {cs : List Char} (h : IsNumber word)
    (hc : (c == '-' || Decimal.isDigit c) = false) : c :: cs ≠ word ++ rest := by
  intro heq
  obtain ⟨d, ds, rfl, hd⟩ := h.exists_cons
  cases heq
  rcases hd with rfl | hd
  · cases hc
  · rw [hd, Bool.or_true] at hc
    cases hc

theorem skipSpace_append (h : IsNumber word) (rest : List Char) :
    skipSpace (word ++ rest) = word ++ rest := by
  obtain ⟨c, cs, rfl, hc⟩ := h.exists_cons
  refine Literal.skipSpace_cons ?_ (cs ++ rest)
  rcases hc with rfl | hc
  · rfl
  · exact Literal.isSpace_eq_false_of_isDigit hc

/-- A number is all of the characters of numbers in front of a text. -/
theorem takeWhile_eq (h : IsNumber word) (hends : Ends rest) :
    (word ++ rest).takeWhile PhaseText.isNumeric = word ∧
      (word ++ rest).dropWhile PhaseText.isNumeric = rest := by
  rw [List.takeWhile_append_of_pos h.isNumeric, List.dropWhile_append_of_pos h.isNumeric]
  cases rest with
  | nil => exact ⟨List.append_nil _, rfl⟩
  | cons c rest =>
    have hstop := hends c rfl
    rw [List.takeWhile_cons_of_neg (by simp [hstop]), List.dropWhile_cons_of_neg (by simp [hstop])]
    exact ⟨List.append_nil _, rfl⟩

theorem unique (h : IsNumber word) (h' : IsNumber word') (hends : Ends rest) (hends' : Ends rest')
    (heq : word ++ rest = word' ++ rest') : word = word' ∧ rest = rest' := by
  obtain ⟨hword, hrest⟩ := h.takeWhile_eq hends
  obtain ⟨hword', hrest'⟩ := h'.takeWhile_eq hends'
  rw [heq] at hword hrest
  exact ⟨hword.symm.trans hword', hrest.symm.trans hrest'⟩

end IsNumber

/-! ## Values -/

mutual

/-- The text begins with a value, after blanks. -/
inductive HasValue : List Char → Json → List Char → Prop where
  | null {text rest : List Char} (hs : skipSpace text = 'n' :: 'u' :: 'l' :: 'l' :: rest) :
      HasValue text .null rest
  | true {text rest : List Char} (hs : skipSpace text = 't' :: 'r' :: 'u' :: 'e' :: rest) :
      HasValue text (.bool Bool.true) rest
  | false {text rest : List Char} (hs : skipSpace text = 'f' :: 'a' :: 'l' :: 's' :: 'e' :: rest) :
      HasValue text (.bool Bool.false) rest
  | number {text word rest : List Char} {value : Json} (hs : skipSpace text = word ++ rest)
      (hword : IsNumber word) (hends : Ends rest) (hvalue : ofNumber? word = some value) :
      HasValue text value rest
  | text {text cs word rest : List Char} (hs : skipSpace text = '"' :: cs)
      (hword : HasText cs word rest) : HasValue text (.text (String.ofList word)) rest
  | emptyArray {text cs rest : List Char} (hs : skipSpace text = '[' :: cs)
      (hclose : skipSpace cs = ']' :: rest) : HasValue text (.array []) rest
  | array {text cs rest : List Char} {items : List Json} (hs : skipSpace text = '[' :: cs)
      (hitems : HasItems cs items rest) : HasValue text (.array items) rest
  | emptyObject {text cs rest : List Char} (hs : skipSpace text = '\x7b' :: cs)
      (hclose : skipSpace cs = '\x7d' :: rest) : HasValue text (.object []) rest
  | object {text cs rest : List Char} {members : List (String × Json)}
      (hs : skipSpace text = '\x7b' :: cs) (hmembers : HasMembers cs members rest) :
      HasValue text (.object members) rest

/-- The text begins with items, with commas between them and a closing bracket behind them. -/
inductive HasItems : List Char → List Json → List Char → Prop where
  | last {text after rest : List Char} {item : Json} (hitem : HasValue text item after)
      (hclose : skipSpace after = ']' :: rest) : HasItems text [item] rest
  | more {text after next rest : List Char} {item : Json} {items : List Json}
      (hitem : HasValue text item after) (hcomma : skipSpace after = ',' :: next)
      (hitems : HasItems next items rest) : HasItems text (item :: items) rest

/-- The text begins with a name, a colon and a value. -/
inductive HasMember : List Char → String × Json → List Char → Prop where
  | mk {text cs name after next rest : List Char} {value : Json}
      (hs : skipSpace text = '"' :: cs) (hname : HasText cs name after)
      (hcolon : skipSpace after = ':' :: next) (hvalue : HasValue next value rest) :
      HasMember text (String.ofList name, value) rest

/-- The text begins with members, with commas between them and a closing brace behind them. -/
inductive HasMembers : List Char → List (String × Json) → List Char → Prop where
  | last {text after rest : List Char} {member : String × Json}
      (hmember : HasMember text member after) (hclose : skipSpace after = '\x7d' :: rest) :
      HasMembers text [member] rest
  | more {text after next rest : List Char} {member : String × Json}
      {members : List (String × Json)} (hmember : HasMember text member after)
      (hcomma : skipSpace after = ',' :: next) (hmembers : HasMembers next members rest) :
      HasMembers text (member :: members) rest

end

/-- The text is one value, with blanks around it. -/
def Says (text : String) (value : Json) : Prop :=
  ∃ rest, HasValue text.toList value rest ∧ skipSpace rest = []

/-! ## Blanks in front -/

section

variable {text text' rest : List Char}

/-- Blanks in front of a value do not matter. -/
theorem HasValue.of_skipSpace_eq {value : Json} (h : HasValue text value rest)
    (hskip : skipSpace text' = skipSpace text) : HasValue text' value rest := by
  cases h with
  | null hs => exact .null (hskip.trans hs)
  | true hs => exact .true (hskip.trans hs)
  | false hs => exact .false (hskip.trans hs)
  | number hs hword hends hvalue => exact .number (hskip.trans hs) hword hends hvalue
  | text hs hword => exact .text (hskip.trans hs) hword
  | emptyArray hs hclose => exact .emptyArray (hskip.trans hs) hclose
  | array hs hitems => exact .array (hskip.trans hs) hitems
  | emptyObject hs hclose => exact .emptyObject (hskip.trans hs) hclose
  | object hs hmembers => exact .object (hskip.trans hs) hmembers

theorem HasItems.of_skipSpace_eq {items : List Json} (h : HasItems text items rest)
    (hskip : skipSpace text' = skipSpace text) : HasItems text' items rest := by
  cases h with
  | last hitem hclose => exact .last (hitem.of_skipSpace_eq hskip) hclose
  | more hitem hcomma hitems => exact .more (hitem.of_skipSpace_eq hskip) hcomma hitems

theorem HasMember.of_skipSpace_eq {member : String × Json} (h : HasMember text member rest)
    (hskip : skipSpace text' = skipSpace text) : HasMember text' member rest := by
  obtain ⟨hs, hname, hcolon, hvalue⟩ := h
  exact .mk (hskip.trans hs) hname hcolon hvalue

theorem HasMembers.of_skipSpace_eq {members : List (String × Json)}
    (h : HasMembers text members rest) (hskip : skipSpace text' = skipSpace text) :
    HasMembers text' members rest := by
  cases h with
  | last hmember hclose => exact .last (hmember.of_skipSpace_eq hskip) hclose
  | more hmember hcomma hmembers => exact .more (hmember.of_skipSpace_eq hskip) hcomma hmembers

end

/-! ## One value at most -/

namespace HasValue

variable {text cs rest : List Char} {value : Json}

theorem of_null (h : HasValue text value rest)
    (hs : skipSpace text = 'n' :: 'u' :: 'l' :: 'l' :: cs) : value = .null ∧ rest = cs := by
  cases h with
  | null hs' =>
    cases hs.symm.trans hs'
    exact ⟨rfl, rfl⟩
  | number hs' hword => exact absurd (hs.symm.trans hs') (hword.not_begins rfl)
  | true hs' | false hs' | text hs' | emptyArray hs' | array hs' | emptyObject hs' | object hs' =>
    cases hs.symm.trans hs'

theorem of_true (h : HasValue text value rest)
    (hs : skipSpace text = 't' :: 'r' :: 'u' :: 'e' :: cs) :
    value = .bool Bool.true ∧ rest = cs := by
  cases h with
  | true hs' =>
    cases hs.symm.trans hs'
    exact ⟨rfl, rfl⟩
  | number hs' hword => exact absurd (hs.symm.trans hs') (hword.not_begins rfl)
  | null hs' | false hs' | text hs' | emptyArray hs' | array hs' | emptyObject hs' | object hs' =>
    cases hs.symm.trans hs'

theorem of_false (h : HasValue text value rest)
    (hs : skipSpace text = 'f' :: 'a' :: 'l' :: 's' :: 'e' :: cs) :
    value = .bool Bool.false ∧ rest = cs := by
  cases h with
  | false hs' =>
    cases hs.symm.trans hs'
    exact ⟨rfl, rfl⟩
  | number hs' hword => exact absurd (hs.symm.trans hs') (hword.not_begins rfl)
  | null hs' | true hs' | text hs' | emptyArray hs' | array hs' | emptyObject hs' | object hs' =>
    cases hs.symm.trans hs'

theorem of_number {word rest' : List Char} (h : HasValue text value rest)
    (hs : skipSpace text = word ++ rest') (hword : IsNumber word) (hends : Ends rest') :
    ofNumber? word = some value ∧ rest = rest' := by
  cases h with
  | number hs' hword' hends' hvalue' =>
    obtain ⟨rfl, rfl⟩ := hword.unique hword' hends hends' (hs.symm.trans hs')
    exact ⟨hvalue', rfl⟩
  | null hs' | true hs' | false hs' | text hs' | emptyArray hs' | array hs' | emptyObject hs'
    | object hs' => exact absurd (hs'.symm.trans hs) (hword.not_begins rfl)

theorem of_quote (h : HasValue text value rest) (hs : skipSpace text = '"' :: cs) :
    ∃ word, value = .text (String.ofList word) ∧ HasText cs word rest := by
  cases h with
  | text hs' hword =>
    cases hs.symm.trans hs'
    exact ⟨_, rfl, hword⟩
  | number hs' hword => exact absurd (hs.symm.trans hs') (hword.not_begins rfl)
  | null hs' | true hs' | false hs' | emptyArray hs' | array hs' | emptyObject hs' | object hs' =>
    cases hs.symm.trans hs'

theorem of_bracket (h : HasValue text value rest) (hs : skipSpace text = '[' :: cs) :
    ∃ items, value = .array items ∧
      (items = [] ∧ skipSpace cs = ']' :: rest ∨ HasItems cs items rest) := by
  cases h with
  | emptyArray hs' hclose =>
    cases hs.symm.trans hs'
    exact ⟨_, rfl, .inl ⟨rfl, hclose⟩⟩
  | array hs' hitems =>
    cases hs.symm.trans hs'
    exact ⟨_, rfl, .inr hitems⟩
  | number hs' hword => exact absurd (hs.symm.trans hs') (hword.not_begins rfl)
  | null hs' | true hs' | false hs' | text hs' | emptyObject hs' | object hs' =>
    cases hs.symm.trans hs'

theorem of_brace (h : HasValue text value rest) (hs : skipSpace text = '\x7b' :: cs) :
    ∃ members, value = .object members ∧
      (members = [] ∧ skipSpace cs = '\x7d' :: rest ∨ HasMembers cs members rest) := by
  cases h with
  | emptyObject hs' hclose =>
    cases hs.symm.trans hs'
    exact ⟨_, rfl, .inl ⟨rfl, hclose⟩⟩
  | object hs' hmembers =>
    cases hs.symm.trans hs'
    exact ⟨_, rfl, .inr hmembers⟩
  | number hs' hword => exact absurd (hs.symm.trans hs') (hword.not_begins rfl)
  | null hs' | true hs' | false hs' | text hs' | emptyArray hs' | array hs' =>
    cases hs.symm.trans hs'

/-- A value does not begin with a closing bracket. -/
theorem not_close (h : HasValue text value rest) : skipSpace text ≠ ']' :: cs := by
  intro hs
  cases h with
  | number hs' hword => exact absurd (hs.symm.trans hs') (hword.not_begins rfl)
  | null hs' | true hs' | false hs' | text hs' | emptyArray hs' | array hs' | emptyObject hs'
    | object hs' => cases hs.symm.trans hs'

end HasValue

theorem HasItems.not_close {text cs rest : List Char} {items : List Json}
    (h : HasItems text items rest) : skipSpace text ≠ ']' :: cs := by
  cases h with
  | last hitem => exact hitem.not_close
  | more hitem => exact hitem.not_close

theorem HasMembers.not_close {text cs rest : List Char} {members : List (String × Json)}
    (h : HasMembers text members rest) : skipSpace text ≠ '\x7d' :: cs := by
  intro hs
  cases h with
  | last hmember =>
    obtain ⟨hs', -, -, -⟩ := hmember
    cases hs.symm.trans hs'
  | more hmember =>
    obtain ⟨hs', -, -, -⟩ := hmember
    cases hs.symm.trans hs'

mutual

theorem HasValue.unique {text rest rest' : List Char} {value value' : Json}
    (h : HasValue text value rest) (h' : HasValue text value' rest') :
    value = value' ∧ rest = rest' := by
  match h with
  | .null hs =>
    obtain ⟨rfl, rfl⟩ := h'.of_null hs
    exact ⟨rfl, rfl⟩
  | .true hs =>
    obtain ⟨rfl, rfl⟩ := h'.of_true hs
    exact ⟨rfl, rfl⟩
  | .false hs =>
    obtain ⟨rfl, rfl⟩ := h'.of_false hs
    exact ⟨rfl, rfl⟩
  | .number hs hword hends hvalue =>
    obtain ⟨hvalue', rfl⟩ := h'.of_number hs hword hends
    exact ⟨Option.some.inj (hvalue.symm.trans hvalue'), rfl⟩
  | .text hs hword =>
    obtain ⟨_, rfl, hword'⟩ := h'.of_quote hs
    obtain ⟨rfl, rfl⟩ := hword.unique hword'
    exact ⟨rfl, rfl⟩
  | .emptyArray hs hclose =>
    obtain ⟨_, rfl, ⟨rfl, hclose'⟩ | hitems⟩ := h'.of_bracket hs
    · cases hclose.symm.trans hclose'
      exact ⟨rfl, rfl⟩
    · exact absurd hclose hitems.not_close
  | .array hs hitems =>
    obtain ⟨_, rfl, ⟨-, hclose⟩ | hitems'⟩ := h'.of_bracket hs
    · exact absurd hclose hitems.not_close
    · obtain ⟨rfl, rfl⟩ := hitems.unique hitems'
      exact ⟨rfl, rfl⟩
  | .emptyObject hs hclose =>
    obtain ⟨_, rfl, ⟨rfl, hclose'⟩ | hmembers⟩ := h'.of_brace hs
    · cases hclose.symm.trans hclose'
      exact ⟨rfl, rfl⟩
    · exact absurd hclose hmembers.not_close
  | .object hs hmembers =>
    obtain ⟨_, rfl, ⟨-, hclose⟩ | hmembers'⟩ := h'.of_brace hs
    · exact absurd hclose hmembers.not_close
    · obtain ⟨rfl, rfl⟩ := hmembers.unique hmembers'
      exact ⟨rfl, rfl⟩
termination_by structural h

theorem HasItems.unique {text rest rest' : List Char} {items items' : List Json}
    (h : HasItems text items rest) (h' : HasItems text items' rest') :
    items = items' ∧ rest = rest' := by
  match h with
  | .last hitem hclose =>
    cases h' with
    | last hitem' hclose' =>
      obtain ⟨rfl, rfl⟩ := hitem.unique hitem'
      cases hclose.symm.trans hclose'
      exact ⟨rfl, rfl⟩
    | more hitem' hcomma =>
      obtain ⟨-, rfl⟩ := hitem.unique hitem'
      cases hclose.symm.trans hcomma
  | .more hitem hcomma hitems =>
    cases h' with
    | last hitem' hclose =>
      obtain ⟨-, rfl⟩ := hitem.unique hitem'
      cases hclose.symm.trans hcomma
    | more hitem' hcomma' hitems' =>
      obtain ⟨rfl, rfl⟩ := hitem.unique hitem'
      cases hcomma.symm.trans hcomma'
      obtain ⟨rfl, rfl⟩ := hitems.unique hitems'
      exact ⟨rfl, rfl⟩
termination_by structural h

theorem HasMember.unique {text rest rest' : List Char} {member member' : String × Json}
    (h : HasMember text member rest) (h' : HasMember text member' rest') :
    member = member' ∧ rest = rest' := by
  match h with
  | .mk hs hname hcolon hvalue =>
    obtain ⟨hs', hname', hcolon', hvalue'⟩ := h'
    cases hs.symm.trans hs'
    obtain ⟨rfl, rfl⟩ := hname.unique hname'
    cases hcolon.symm.trans hcolon'
    obtain ⟨rfl, rfl⟩ := hvalue.unique hvalue'
    exact ⟨rfl, rfl⟩
termination_by structural h

theorem HasMembers.unique {text rest rest' : List Char} {members members' : List (String × Json)}
    (h : HasMembers text members rest) (h' : HasMembers text members' rest') :
    members = members' ∧ rest = rest' := by
  match h with
  | .last hmember hclose =>
    cases h' with
    | last hmember' hclose' =>
      obtain ⟨rfl, rfl⟩ := hmember.unique hmember'
      cases hclose.symm.trans hclose'
      exact ⟨rfl, rfl⟩
    | more hmember' hcomma =>
      obtain ⟨-, rfl⟩ := hmember.unique hmember'
      cases hclose.symm.trans hcomma
  | .more hmember hcomma hmembers =>
    cases h' with
    | last hmember' hclose =>
      obtain ⟨-, rfl⟩ := hmember.unique hmember'
      cases hclose.symm.trans hcomma
    | more hmember' hcomma' hmembers' =>
      obtain ⟨rfl, rfl⟩ := hmember.unique hmember'
      cases hcomma.symm.trans hcomma'
      obtain ⟨rfl, rfl⟩ := hmembers.unique hmembers'
      exact ⟨rfl, rfl⟩
termination_by structural h

end

/-- A text says one value or none. -/
theorem Says.unique {text : String} {value value' : Json} (h : Says text value)
    (h' : Says text value') : value = value' := by
  obtain ⟨rest, hvalue, -⟩ := h
  obtain ⟨rest', hvalue', -⟩ := h'
  exact (hvalue.unique hvalue').1

end Conditioning.Json
