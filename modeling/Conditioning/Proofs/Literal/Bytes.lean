import Conditioning.Proofs.Literal.Sequence

/-!
# Bytes of a text

A place in a text is the number of bytes in front of it.  A text can be cut at a
place only if a character begins there or the text ends there; `slice?` gives no
result at any other place.  What is left of a text is at such a place
(`isValid_placeOf`), and a slice between two of them is the text between them
(`slice?_eq`).

A scan over bytes takes each byte for the character of its number.  A character
that is a single byte stands for itself, and a longer one stands for bytes that no
single-byte character has (`bytesOf_cons`, `exists_bytesOf_cons`).  So a scan that
looks for single-byte characters only stops at the same place whether it sees bytes
or characters (`takeWhile_bytesOf`, `numeral_bytesOf`).
-/

namespace Conditioning.Literal

/-! ## Bytes -/

/-- The bytes of a text, each taken for the character of its number. -/
def bytesOf (text : List Char) : List Char :=
  text.flatMap fun c => (String.utf8EncodeChar c).map Char.ofUInt8

theorem bytesOf_append (cs ds : List Char) : bytesOf (cs ++ ds) = bytesOf cs ++ bytesOf ds :=
  List.flatMap_append

theorem length_bytesOf (text : List Char) : (bytesOf text).length = byteLength text := by
  induction text with
  | nil => rfl
  | cons c cs ih =>
    rw [← List.singleton_append, bytesOf_append, List.length_append, ih, List.singleton_append,
      byteLength]
    simp [bytesOf]

/-- A character that is a single byte stands for itself. -/
theorem bytesOf_cons {c : Char} (h : c.utf8Size = 1) (cs : List Char) :
    bytesOf (c :: cs) = c :: bytesOf cs := by
  have hval : c.val ≤ 127 := Char.utf8Size_eq_one_iff.1 h
  have hbyte : Char.ofUInt8 c.val.toUInt8 = c := by
    refine Char.ext (UInt32.toNat_inj.1 ?_)
    show c.val.toUInt8.toUInt32.toNat = c.val.toNat
    have hle : c.val.toNat ≤ 127 := hval
    rw [UInt8.toNat_toUInt32, UInt32.toNat_toUInt8]
    omega
  show (String.utf8EncodeChar c).map Char.ofUInt8 ++ bytesOf cs = _
  rw [String.utf8EncodeChar_eq_singleton h, List.map_singleton, hbyte, List.singleton_append]

/-- A byte from 128 on is the number of no character that is a single byte. -/
theorem utf8Size_ofUInt8_ne_one {b : UInt8} (h : 128 ≤ b.toNat) :
    (Char.ofUInt8 b).utf8Size ≠ 1 := by
  intro hsize
  have hval : (Char.ofUInt8 b).val.toNat ≤ 127 := Char.utf8Size_eq_one_iff.1 hsize
  have hbyte : (Char.ofUInt8 b).val.toNat = b.toNat := UInt8.toNat_toUInt32 b
  omega

/-- The first byte of a longer character is the number of no character that is a single byte. -/
theorem exists_bytesOf_cons {c : Char} (h : c.utf8Size ≠ 1) (cs : List Char) :
    ∃ b bs, bytesOf (c :: cs) = b :: bs ∧ b.utf8Size ≠ 1 := by
  have hval : ¬c.val.toNat ≤ 127 := fun hle => h (Char.utf8Size_eq_one_iff.2 hle)
  obtain ⟨b, bs, hencode, hb⟩ : ∃ b bs, String.utf8EncodeChar c = b :: bs ∧ 128 ≤ b.toNat := by
    rw [String.utf8EncodeChar.eq_1]
    simp only [if_neg hval]
    split
    · exact ⟨_, _, rfl, by simp; omega⟩
    · split
      · exact ⟨_, _, rfl, by simp; omega⟩
      · exact ⟨_, _, rfl, by simp; omega⟩
  refine ⟨Char.ofUInt8 b, bs.map Char.ofUInt8 ++ bytesOf cs, ?_, utf8Size_ofUInt8_ne_one hb⟩
  show (String.utf8EncodeChar c).map Char.ofUInt8 ++ bytesOf cs = _
  rw [hencode]
  rfl

/-! ## Scans -/

/-- A test that holds of single-byte characters only. -/
def OfSingleBytes (p : Char → Prop) : Prop := ∀ c, p c → c.utf8Size = 1

/-- A scan over bytes takes the same characters as a scan over the text. -/
theorem takeWhile_bytesOf {p : Char → Bool} (hp : OfSingleBytes fun c => p c = true)
    (text : List Char) : (bytesOf text).takeWhile p = text.takeWhile p := by
  induction text with
  | nil => rfl
  | cons c cs ih =>
    by_cases hc : c.utf8Size = 1
    · rw [bytesOf_cons hc, List.takeWhile_cons, List.takeWhile_cons, ih]
    · obtain ⟨b, bs, hbytes, hb⟩ := exists_bytesOf_cons hc cs
      have hpc : ¬p c = true := fun h => hc (hp c h)
      have hpb : ¬p b = true := fun h => hb (hp b h)
      rw [hbytes, List.takeWhile_cons_of_neg hpb, List.takeWhile_cons_of_neg hpc]

theorem byteLength_of_forall {text : List Char} (h : ∀ c ∈ text, c.utf8Size = 1) :
    byteLength text = text.length := by
  induction text with
  | nil => rfl
  | cons c cs ih =>
    obtain ⟨hc, hcs⟩ := List.forall_mem_cons.1 h
    rw [byteLength, hc, ih hcs, List.length_cons, Nat.add_comm]

theorem length_le_byteLength (text : List Char) : text.length ≤ byteLength text := by
  induction text with
  | nil => exact Nat.le_refl 0
  | cons c cs ih =>
    have := c.utf8Size_pos
    simp only [byteLength, List.length_cons]
    omega

theorem utf8Size_of_le {c : Char} (h : c ≤ 'z') : c.utf8Size = 1 := by
  have hle : c.val.toNat ≤ 122 := h
  exact Char.utf8Size_eq_one_iff.2 (Nat.le_trans hle (by decide))

theorem ofSingleBytes_isSpace : OfSingleBytes fun c => isSpace c = true := by
  intro c h
  simp only [isSpace, Bool.or_eq_true, beq_iff_eq] at h
  obtain ((rfl | rfl) | rfl) | rfl := h <;> rfl

theorem ofSingleBytes_isWordChar : OfSingleBytes fun c => isWordChar c = true := by
  intro c h
  simp only [isWordChar, Decimal.isDigit, Bool.or_eq_true, Bool.and_eq_true, decide_eq_true_eq,
    beq_iff_eq] at h
  obtain ((h | h) | h) | rfl := h
  · exact utf8Size_of_le (Char.le_trans h.2 (by decide))
  · exact utf8Size_of_le h.2
  · exact utf8Size_of_le (Char.le_trans h.2 (by decide))
  · rfl

theorem parted_of_utf8Size {c : Char} (h : c.utf8Size ≠ 1) (cs : List Char) :
    Parted (c :: cs) := by
  refine .cons ⟨?_, ?_, ?_, ?_⟩ cs
  · exact Bool.eq_false_iff.2 fun hword => h (ofSingleBytes_isWordChar c hword)
  all_goals
    rintro rfl
    exact h rfl

/-- The single-byte characters in front of a text, and the rest, which ends a number. -/
theorem exists_eq_append_parted (text : List Char) :
    ∃ front rest, text = front ++ rest ∧ bytesOf text = front ++ bytesOf rest ∧
      (∀ c ∈ front, c.utf8Size = 1) ∧ Parted rest ∧ Parted (bytesOf rest) := by
  induction text with
  | nil => exact ⟨[], [], rfl, rfl, nofun, .nil, .nil⟩
  | cons c cs ih =>
    by_cases hc : c.utf8Size = 1
    · obtain ⟨front, rest, htext, hbytes, hfront, hrest, hrest'⟩ := ih
      refine ⟨c :: front, rest, congrArg (c :: ·) htext, ?_, ?_, hrest, hrest'⟩
      · rw [bytesOf_cons hc, hbytes, List.cons_append]
      · exact List.forall_mem_cons.2 ⟨hc, hfront⟩
    · obtain ⟨b, bs, hbytes, hb⟩ := exists_bytesOf_cons hc cs
      exact ⟨[], c :: cs, rfl, rfl, nofun, parted_of_utf8Size hc cs,
        hbytes ▸ parted_of_utf8Size hb bs⟩

/-- The characters of a number are single bytes, and a scan over bytes finds the same ones. -/
theorem numeral_bytesOf (isDecimal hasDigit : Bool) (text : List Char) :
    (numeral isDecimal hasDigit (bytesOf text)).text = (numeral isDecimal hasDigit text).text ∧
    (numeral isDecimal hasDigit (bytesOf text)).isDecimal =
      (numeral isDecimal hasDigit text).isDecimal ∧
    (numeral isDecimal hasDigit (bytesOf text)).hasDigit =
      (numeral isDecimal hasDigit text).hasDigit ∧
    ∀ c ∈ (numeral isDecimal hasDigit text).text, c.utf8Size = 1 := by
  obtain ⟨front, rest, rfl, hbytes, hfront, hrest, hrest'⟩ := exists_eq_append_parted text
  rw [hbytes, numeral_append hrest, numeral_append hrest']
  refine ⟨rfl, rfl, rfl, fun c hc => hfront c ?_⟩
  rw [← text_append_rest_numeral isDecimal hasDigit front]
  exact List.mem_append_left _ hc

/-! ## Places -/

/-- The number of bytes in front of the rest of a text. -/
def placeOf (input : String) (rest : List Char) : Nat :=
  input.utf8ByteSize - byteLength rest

/-- The text without some bytes in front. -/
def dropBytes (n : Nat) : List Char → List Char
  | [] => []
  | c :: cs => if n = 0 then c :: cs else dropBytes (n - c.utf8Size) cs

/-- The text up to some bytes. -/
def takeBytes (n : Nat) : List Char → List Char
  | [] => []
  | c :: cs => if n = 0 then [] else c :: takeBytes (n - c.utf8Size) cs

/-- The text between two places, at which it has to be possible to cut it. -/
def slice? (input : String) (start stop : Nat) : Option (List Char) :=
  if (String.Pos.Raw.mk start).isValid input ∧ (String.Pos.Raw.mk stop).isValid input ∧
      start ≤ stop then
    some (takeBytes (stop - start) (dropBytes start input.toList))
  else none

theorem dropBytes_append (before rest : List Char) :
    dropBytes (byteLength before) (before ++ rest) = rest := by
  induction before with
  | nil => cases rest <;> rfl
  | cons c cs ih =>
    have hpos := c.utf8Size_pos
    rw [List.cons_append, dropBytes, byteLength, if_neg (by omega), Nat.add_sub_cancel_left, ih]

theorem takeBytes_append (before rest : List Char) :
    takeBytes (byteLength before) (before ++ rest) = before := by
  induction before with
  | nil => cases rest <;> rfl
  | cons c cs ih =>
    have hpos := c.utf8Size_pos
    rw [List.cons_append, takeBytes, byteLength, if_neg (by omega), Nat.add_sub_cancel_left, ih]

section

variable {input : String} {before rest : List Char}

theorem placeOf_eq (h : input.toList = before ++ rest) :
    placeOf input rest = byteLength before := by
  rw [placeOf, ← byteLength_toList, h, byteLength_append, Nat.add_sub_cancel]

/-- What is left after some more of a text is as many bytes further on. -/
theorem placeOf_append {front : List Char} (h : front ++ rest <:+ input.toList) :
    placeOf input rest = placeOf input (front ++ rest) + byteLength front := by
  obtain ⟨before, hbefore⟩ := h
  have hlater : input.toList = (before ++ front) ++ rest := by rw [List.append_assoc, hbefore]
  rw [placeOf_eq hbefore.symm, placeOf_eq hlater, byteLength_append]

/-- A shorter rest of a text is further on. -/
theorem placeOf_lt {later : List Char} (h : later <:+ rest) (hlt : later.length < rest.length)
    (hrest : rest <:+ input.toList) : placeOf input rest < placeOf input later := by
  obtain ⟨front, rfl⟩ := h
  have hlength := length_le_byteLength front
  rw [List.length_append] at hlt
  rw [placeOf_append hrest]
  omega

/-- What is left after some single-byte characters is as many bytes further on. -/
theorem placeOf_append_of_forall {front : List Char} (h : front ++ rest <:+ input.toList)
    (hfront : ∀ c ∈ front, c.utf8Size = 1) :
    placeOf input (front ++ rest) + front.length = placeOf input rest := by
  rw [placeOf_append h, byteLength_of_forall hfront]

theorem placeOf_cons {c : Char} {cs : List Char} (h : c :: cs <:+ input.toList) :
    placeOf input cs = placeOf input (c :: cs) + c.utf8Size := by
  have hplace := @placeOf_append input cs [c] h
  rw [hplace, byteLength, byteLength, Nat.add_zero, List.singleton_append]

theorem placeOf_nil : placeOf input [] = input.utf8ByteSize := rfl

theorem placeOf_le : placeOf input rest ≤ input.utf8ByteSize :=
  Nat.sub_le _ _

/-- A text can be cut in front of what is left of it. -/
theorem isValid_placeOf (h : rest <:+ input.toList) :
    (String.Pos.Raw.mk (placeOf input rest)).IsValid input := by
  obtain ⟨before, hbefore⟩ := h
  refine String.Pos.Raw.isValid_iff_exists_append.2
    ⟨String.ofList before, String.ofList rest, ?_, ?_⟩
  · rw [← String.ofList_append, hbefore, String.ofList_toList]
  · rw [placeOf_eq hbefore.symm, String.rawEndPos, ← byteLength_toList, String.toList_ofList]

/-- Where a text can be cut, the rest of it is what is left without the bytes in front. -/
theorem of_isValid {place : Nat} (h : (String.Pos.Raw.mk place).IsValid input) :
    dropBytes place input.toList <:+ input.toList ∧
      placeOf input (dropBytes place input.toList) = place := by
  obtain ⟨front, rest, happend, hplace⟩ := String.Pos.Raw.isValid_iff_exists_append.1 h
  have htext : input.toList = front.toList ++ rest.toList := by
    rw [happend, String.toList_append]
  have hfront : place = byteLength front.toList := by
    rw [byteLength_toList]
    exact congrArg String.Pos.Raw.byteIdx hplace
  have hdrop : dropBytes place input.toList = rest.toList := by
    rw [htext, hfront, dropBytes_append]
  rw [hdrop, placeOf_eq htext]
  exact ⟨htext ▸ List.suffix_append _ _, hfront.symm⟩

/-- The slice between what is left and what is left later is the text between them. -/
theorem slice?_eq {front : List Char} (h : front ++ rest <:+ input.toList) :
    slice? input (placeOf input (front ++ rest)) (placeOf input rest) = some front := by
  have hplace := placeOf_append h
  have hstart := isValid_placeOf h
  have hstop := isValid_placeOf ((List.suffix_append front rest).trans h)
  obtain ⟨before, hbefore⟩ := h
  rw [slice?, if_pos]
  · rw [hplace, Nat.add_sub_cancel_left, placeOf_eq hbefore.symm, ← hbefore, dropBytes_append,
      takeBytes_append]
  · refine ⟨String.Pos.Raw.isValid_eq_true_iff.2 hstart,
      String.Pos.Raw.isValid_eq_true_iff.2 hstop, ?_⟩
    omega

/-- The bytes from what is left on are the bytes of it. -/
theorem drop_bytesOf (h : rest <:+ input.toList) :
    (bytesOf input.toList).drop (placeOf input rest) = bytesOf rest := by
  obtain ⟨before, hbefore⟩ := h
  rw [placeOf_eq hbefore.symm, ← hbefore, bytesOf_append, ← length_bytesOf, List.drop_left]

end

end Conditioning.Literal
