import Conditioning.Proofs.Report.Numbers

/-!
# What a report says

A value is written as a text that says it, but for doubles that are not finite, which
are written as null (`finite`).  What stands in brackets is written line by line, so
the text of a value is followed by a comma, a line's end or nothing at all, and a
number ends there.

No other value is said by the text (`says_pretty_iff`), so a report can be read back.
-/

namespace Conditioning.Json

open Literal (skipSpace)

/-! ## Without infinities -/

/-- The value that a double is written as. -/
def ofDouble (x : Float) : Json :=
  if x.isFinite then .number x else .null

mutual

/-- A value with null for each double that is not finite. -/
def finite : Json → Json
  | null => null
  | bool value => bool value
  | natural value => natural value
  | number value => ofDouble value
  | text value => text value
  | array items => array (finiteItems items)
  | object members => object (finiteMembers members)

/-- Items with null for each double that is not finite. -/
def finiteItems : List Json → List Json
  | [] => []
  | item :: items => finite item :: finiteItems items

/-- Members with null for each double that is not finite. -/
def finiteMembers : List (String × Json) → List (String × Json)
  | [] => []
  | (name, value) :: members => (name, finite value) :: finiteMembers members

end

theorem finiteItems_eq_map (items : List Json) : finiteItems items = items.map finite := by
  induction items with
  | nil => rfl
  | cons item items ih => rw [finiteItems, ih, List.map_cons]

/-! ## Texts in quotes -/

theorem hexValue?_hexDigit : ∀ n < 16, hexValue? (hexDigit n) = some n := by
  decide

/-- A character is what its escape stands for. -/
theorem hasChar_escape (c : Char) (rest : List Char) : HasChar (escape c ++ rest) c rest := by
  have hchar {n : Nat} (h : c.toNat = n) : Char.ofNat n = c := by rw [← h, Char.ofNat_toNat]
  unfold escape
  split
  next h => subst h; exact .short rfl
  split
  next h => subst h; exact .short rfl
  split
  next h => subst h; exact .short rfl
  split
  next h => subst h; exact .short rfl
  split
  next h => subst h; exact .short rfl
  split
  next h => exact .short (congrArg some (hchar h))
  split
  next h => exact .short (congrArg some (hchar h))
  split
  next h =>
    have hunit : unit? '0' '0' (hexDigit (c.toNat / 16)) (hexDigit (c.toNat % 16)) =
        some c.toNat := by
      rw [unit?, hexValue?_hexDigit _ (by omega), hexValue?_hexDigit _ (by omega)]
      show some (4096 * 0 + 256 * 0 + 16 * (c.toNat / 16) + c.toNat % 16) = some c.toNat
      exact congrArg some (by omega)
    have hc : HasChar (_ :: _ :: '0' :: '0' :: _ :: _ :: rest) _ rest := .unit hunit c.valid
    rwa [Char.ofNat_toNat] at hc
  next hquote hescape _ _ _ _ _ hcontrol => exact .plain hquote hescape (Nat.not_lt.1 hcontrol)

theorem hasText_escape (cs rest : List Char) :
    HasText (cs.flatMap escape ++ '"' :: rest) cs rest := by
  induction cs with
  | nil => exact .close
  | cons c cs ih =>
    rw [List.flatMap_cons, List.append_assoc]
    exact .char (hasChar_escape c _) ih

theorem toList_quote_append (text : String) (rest : List Char) :
    (quote text).toList ++ rest = '"' :: (text.toList.flatMap escape ++ '"' :: rest) := by
  simp [quote]

/-! ## Lines between brackets -/

theorem ends_cons {c : Char} (h : PhaseText.isNumeric c = false) (rest : List Char) :
    Ends (c :: rest) := by
  intro c' hc'
  cases hc'
  exact h

theorem ends_comma (rest : List Char) : Ends (',' :: rest) :=
  ends_cons rfl rest

theorem toList_newLine (level : Nat) :
    (newLine level).toList = '\n' :: List.replicate (2 * level) ' ' := by
  simp [newLine]

theorem skipSpace_newLine (level : Nat) (text : List Char) :
    skipSpace ((newLine level).toList ++ text) = skipSpace text := by
  refine Literal.skipSpace_append (fun c hc => ?_) text
  rw [toList_newLine] at hc
  rcases List.mem_cons.1 hc with rfl | hc
  · rfl
  · exact List.eq_of_mem_replicate hc ▸ rfl

theorem ends_newLine (level : Nat) (text : List Char) :
    Ends ((newLine level).toList ++ text) := by
  rw [toList_newLine]
  exact ends_cons rfl _

/-- The characters of lines with commas at their ends, up to the closing bracket. -/
def linesUpTo (level : Nat) (closing : Char) (lines : List String) (rest : List Char) :
    List Char :=
  (newLine (level + 1)).toList ++
    ((String.intercalate ("," ++ newLine (level + 1)) lines).toList ++
      ((newLine level).toList ++ closing :: rest))

theorem toList_bracketed_nil {opening closing : String} {o c : Char} (ho : opening.toList = [o])
    (hc : closing.toList = [c]) (level : Nat) (rest : List Char) :
    (bracketed opening closing level []).toList ++ rest = o :: c :: rest := by
  simp [bracketed, ho, hc]

theorem toList_bracketed_cons {opening closing : String} {o c : Char} (ho : opening.toList = [o])
    (hc : closing.toList = [c]) (level : Nat) (line : String) (lines : List String)
    (rest : List Char) : (bracketed opening closing level (line :: lines)).toList ++ rest =
      o :: linesUpTo level c (line :: lines) rest := by
  simp [bracketed, linesUpTo, ho, hc]

theorem linesUpTo_singleton (level : Nat) (closing : Char) (line : String) (rest : List Char) :
    linesUpTo level closing [line] rest =
      (newLine (level + 1)).toList ++
        (line.toList ++ ((newLine level).toList ++ closing :: rest)) := by
  rw [linesUpTo, String.intercalate_singleton]

theorem linesUpTo_cons_cons (level : Nat) (closing : Char) (line next : String)
    (lines : List String) (rest : List Char) :
    linesUpTo level closing (line :: next :: lines) rest =
      (newLine (level + 1)).toList ++
        (line.toList ++ ',' :: linesUpTo level closing (next :: lines) rest) := by
  simp [linesUpTo, String.intercalate_cons_cons]

/-! ## Values -/

section

variable {rest : List Char}

theorem hasValue_naturalText (n : Nat) (hends : Ends rest) :
    HasValue ((Decimal.naturalText n).toList ++ rest) (natural n) rest := by
  rw [Decimal.naturalText, String.toList_ofList]
  exact .number ((isNumber_digits n).skipSpace_append rest) (isNumber_digits n) hends
    (ofNumber?_digits n)

theorem hasValue_double (x : Float) (hends : Ends rest) :
    HasValue (((numberStyle.text? x).getD "null").toList ++ rest) (ofDouble x) rest := by
  rw [ofDouble]
  split
  next hfinite =>
    obtain ⟨word, htext, hword, hvalue⟩ := exists_text?_eq hfinite
    rw [htext, Option.getD_some, String.toList_ofList]
    exact .number (hword.skipSpace_append rest) hword hends hvalue
  next hinfinite =>
    have hnone : numberStyle.text? x = none := by
      rw [Decimal.Style.text?]
      split
      next hparts =>
        exact absurd hparts (Double.parts_ne_finite (Bool.eq_false_iff.2 hinfinite) _ _ _)
      next => rfl
    rw [hnone]
    exact .null rfl

theorem hasValue_quote (text : String) : HasValue ((quote text).toList ++ rest) (.text text) rest := by
  rw [toList_quote_append]
  have h := HasValue.text (Literal.skipSpace_cons rfl _) (hasText_escape text.toList rest)
  rwa [String.ofList_toList] at h

/-- A name and the text of a value. -/
theorem hasMember_line {line : String} {value : Json} (name : String)
    (h : HasValue (line.toList ++ rest) value rest) :
    HasMember ((quote name ++ ": " ++ line).toList ++ rest) (name, value) rest := by
  have htext : (quote name ++ ": " ++ line).toList ++ rest =
      '"' :: (name.toList.flatMap escape ++ '"' :: ':' :: ' ' :: (line.toList ++ rest)) := by
    simp [quote]
  have hmember := HasMember.mk (Literal.skipSpace_cons rfl _)
    (hasText_escape name.toList (':' :: ' ' :: (line.toList ++ rest))) rfl
    (h.of_skipSpace_eq rfl)
  rw [String.ofList_toList] at hmember
  rwa [htext]

end

mutual

/-- A value is said by its text. -/
theorem hasValue_pretty (level : Nat) (json : Json) {rest : List Char} (hends : Ends rest) :
    HasValue ((pretty level json).toList ++ rest) json.finite rest := by
  match json with
  | null =>
    rw [pretty]
    exact .null rfl
  | bool true =>
    rw [pretty]
    exact .true rfl
  | bool false =>
    rw [pretty]
    exact .false rfl
  | natural n =>
    rw [pretty]
    exact hasValue_naturalText n hends
  | number x =>
    rw [pretty]
    exact hasValue_double x hends
  | .text word =>
    rw [pretty]
    exact hasValue_quote word
  | array [] =>
    rw [pretty, prettyItems, toList_bracketed_nil rfl rfl]
    exact .emptyArray (Literal.skipSpace_cons rfl _) (Literal.skipSpace_cons rfl _)
  | array (item :: items) =>
    have hitems := hasItems_prettyItems level (item :: items) (List.cons_ne_nil _ _) rest
    rw [prettyItems] at hitems
    rw [pretty, prettyItems, toList_bracketed_cons rfl rfl]
    exact .array (Literal.skipSpace_cons rfl _) hitems
  | object [] =>
    rw [pretty, prettyMembers, toList_bracketed_nil rfl rfl]
    exact .emptyObject (Literal.skipSpace_cons rfl _) (Literal.skipSpace_cons rfl _)
  | object ((name, value) :: members) =>
    have hmembers := hasMembers_prettyMembers level ((name, value) :: members)
      (List.cons_ne_nil _ _) rest
    rw [prettyMembers] at hmembers
    rw [pretty, prettyMembers, toList_bracketed_cons rfl rfl]
    exact .object (Literal.skipSpace_cons rfl _) hmembers
termination_by structural json

theorem hasItems_prettyItems (level : Nat) (items : List Json) (hne : items ≠ [])
    (rest : List Char) :
    HasItems (linesUpTo level ']' (prettyItems (level + 1) items) rest) (finiteItems items)
      rest := by
  match items, hne with
  | [item], _ =>
    have hitem := hasValue_pretty (level + 1) item (ends_newLine level (']' :: rest))
    rw [prettyItems, prettyItems, linesUpTo_singleton]
    exact .last (hitem.of_skipSpace_eq (skipSpace_newLine ..)) (skipSpace_newLine level _)
  | item :: next :: items, _ =>
    have hitems := hasItems_prettyItems level (next :: items) (List.cons_ne_nil _ _) rest
    rw [prettyItems] at hitems
    rw [prettyItems, prettyItems, linesUpTo_cons_cons]
    have hitem := hasValue_pretty (level + 1) item (ends_comma (linesUpTo level ']'
      (pretty (level + 1) next :: prettyItems (level + 1) items) rest))
    exact .more (hitem.of_skipSpace_eq (skipSpace_newLine ..)) (Literal.skipSpace_cons rfl _) hitems
termination_by structural items

theorem hasMembers_prettyMembers (level : Nat) (members : List (String × Json))
    (hne : members ≠ []) (rest : List Char) :
    HasMembers (linesUpTo level '\x7d' (prettyMembers (level + 1) members) rest)
      (finiteMembers members) rest := by
  match members, hne with
  | [(name, value)], _ =>
    have hvalue := hasValue_pretty (level + 1) value (ends_newLine level ('\x7d' :: rest))
    rw [prettyMembers, prettyMembers, linesUpTo_singleton]
    exact .last ((hasMember_line name hvalue).of_skipSpace_eq (skipSpace_newLine ..))
      (skipSpace_newLine level _)
  | (name, value) :: (name', value') :: members, _ =>
    have hmembers := hasMembers_prettyMembers level ((name', value') :: members)
      (List.cons_ne_nil _ _) rest
    rw [prettyMembers] at hmembers
    rw [prettyMembers, prettyMembers, linesUpTo_cons_cons]
    have hvalue := hasValue_pretty (level + 1) value (ends_comma (linesUpTo level '\x7d'
      ((quote name' ++ ": " ++ pretty (level + 1) value') :: prettyMembers (level + 1) members)
      rest))
    exact .more ((hasMember_line name hvalue).of_skipSpace_eq (skipSpace_newLine ..))
      (Literal.skipSpace_cons rfl _) hmembers
termination_by structural members

end

/-- A report says one value, which is the one that was written. -/
theorem says_pretty_iff (json : Json) (value : Json) :
    Says (json.pretty 0 ++ "\n") value ↔ value = json.finite := by
  have hsays : Says (json.pretty 0 ++ "\n") json.finite := by
    refine ⟨['\n'], ?_, rfl⟩
    rw [String.toList_append]
    exact hasValue_pretty 0 json (ends_cons rfl [])
  constructor
  · exact fun h => h.unique hsays
  · rintro rfl
    exact hsays

end Conditioning.Json
