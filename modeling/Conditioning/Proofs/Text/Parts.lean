import Conditioning.Literal.Reader
import Conditioning.Proofs.Script.Blocks
import Conditioning.Text.Blank

/-!
# Parts with blanks around them

Texts are put together from parts that begin and end with characters other than
blanks (`Solid`).  Between the parts stand separators with gaps around them
(`beside`, `Separated`).  Trimming removes the gaps, cutting at a separator that
does not occur in the parts finds them again, and what is put together is solid
as well.
-/

namespace Conditioning.Text

/-! ## Blanks -/

section

variable {blanks : List Char}

theorem trimStart_append_of_blank (h : ∀ c ∈ blanks, isBlank c = true) (cs : List Char) :
    trimStart (blanks ++ cs) = trimStart cs :=
  List.dropWhile_append_of_pos h

theorem trimEnd_append_of_blank (h : ∀ c ∈ blanks, isBlank c = true) (cs : List Char) :
    trimEnd (cs ++ blanks) = trimEnd cs := by
  rw [trimEnd, List.reverse_append, List.dropWhile_append_of_pos]
  · rfl
  · exact fun c hc => h c (List.mem_reverse.1 hc)

theorem trim_of_blank_append (h : ∀ c ∈ blanks, isBlank c = true) (cs : List Char) :
    trim (blanks ++ cs) = trim cs := by
  rw [trim, trimStart_append_of_blank h, trim]

theorem trim_append_of_blank (h : ∀ c ∈ blanks, isBlank c = true) (cs : List Char) :
    trim (cs ++ blanks) = trim cs := by
  have hblanks : trimStart blanks = [] := by
    have := trimStart_append_of_blank h []
    rwa [List.append_nil] at this
  rw [trim, trimStart, List.dropWhile_append]
  split
  next hempty =>
    have hcs : trimStart cs = [] := List.isEmpty_iff.1 hempty
    rw [← trimStart, hblanks, trim, hcs]
  next => rw [trimEnd_append_of_blank h, ← trimStart, trim]

end

/-- A text is what trimming leaves of it, with blanks on either side. -/
theorem exists_eq_trim (cs : List Char) :
    ∃ front back, cs = front ++ (trim cs ++ back) ∧ (∀ c ∈ front, isBlank c = true) ∧
      ∀ c ∈ back, isBlank c = true := by
  refine ⟨cs.takeWhile isBlank, ((trimStart cs).reverse.takeWhile isBlank).reverse, ?_,
    fun c hc => List.all_eq_true.1 List.all_takeWhile c hc,
    fun c hc => List.all_eq_true.1 List.all_takeWhile c (List.mem_reverse.1 hc)⟩
  have hend : trim cs ++ ((trimStart cs).reverse.takeWhile isBlank).reverse = trimStart cs := by
    rw [trim, trimEnd, ← List.reverse_append, List.takeWhile_append_dropWhile, List.reverse_reverse]
  rw [hend]
  exact List.takeWhile_append_dropWhile.symm

theorem trim_trim (cs : List Char) : trim (trim cs) = trim cs := by
  obtain ⟨front, back, heq, hfront, hback⟩ := exists_eq_trim cs
  calc trim (trim cs) = trim (trim cs ++ back) := (trim_append_of_blank hback _).symm
    _ = trim (front ++ (trim cs ++ back)) := (trim_of_blank_append hfront _).symm
    _ = trim cs := by rw [← heq]

theorem trim_sublist (cs : List Char) : (trim cs).Sublist cs := by
  obtain ⟨front, back, heq, -, -⟩ := exists_eq_trim cs
  conv => rhs; rw [heq]
  exact (List.sublist_append_left _ _).trans (List.sublist_append_right _ _)

/-! ## Gaps -/

/-- Nothing but spaces, tabs and line ends. -/
def IsGap (cs : List Char) : Prop :=
  ∀ c ∈ cs, Literal.isSpace c = true

theorem isBlank_of_isSpace {c : Char} (h : Literal.isSpace c = true) : isBlank c = true := by
  simp only [Literal.isSpace, Bool.or_eq_true, beq_iff_eq] at h
  rcases h with ((rfl | rfl) | rfl) | rfl <;> rfl

theorem isSpace_eq_false {c : Char} (h : isBlank c = false) : Literal.isSpace c = false := by
  rw [Bool.eq_false_iff] at h ⊢
  exact fun hspace => h (isBlank_of_isSpace hspace)

namespace IsGap

variable {gap : List Char}

theorem nil : IsGap [] := by
  intro c hc
  cases hc

theorem space : IsGap [' '] := by
  intro c hc
  rw [List.mem_singleton.1 hc]
  rfl

theorem append {gap' : List Char} (h : IsGap gap) (h' : IsGap gap') : IsGap (gap ++ gap') := by
  intro c hc
  rcases List.mem_append.1 hc with hc | hc
  · exact h c hc
  · exact h' c hc

theorem not_mem (h : IsGap gap) {c : Char} (hc : Literal.isSpace c = false) : c ∉ gap := by
  intro hmem
  rw [h c hmem] at hc
  cases hc

theorem isBlank (h : IsGap gap) {c : Char} (hc : c ∈ gap) : Text.isBlank c = true :=
  isBlank_of_isSpace (h c hc)

theorem trimStart_append (h : IsGap gap) (cs : List Char) : trimStart (gap ++ cs) = trimStart cs :=
  trimStart_append_of_blank (fun _ hc => h.isBlank hc) cs

theorem trimEnd_append (h : IsGap gap) (cs : List Char) : trimEnd (cs ++ gap) = trimEnd cs :=
  trimEnd_append_of_blank (fun _ hc => h.isBlank hc) cs

end IsGap

/-! ## Solid texts -/

/-- A text that begins and ends with a character other than a blank. -/
structure Solid (cs : List Char) : Prop where
  begins : ∃ c rest, cs = c :: rest ∧ isBlank c = false
  ends : ∃ front c, cs = front ++ [c] ∧ isBlank c = false

namespace Solid

variable {cs ds gap gap' : List Char}

theorem ne_nil (h : Solid cs) : cs ≠ [] := by
  obtain ⟨c, rest, rfl, -⟩ := h.begins
  exact List.cons_ne_nil c rest

theorem of_forall (hne : cs ≠ []) (h : ∀ c ∈ cs, isBlank c = false) : Solid cs where
  begins := by
    obtain ⟨c, rest, rfl⟩ := List.exists_cons_of_ne_nil hne
    exact ⟨c, rest, rfl, h c List.mem_cons_self⟩
  ends :=
    ⟨cs.dropLast, cs.getLast hne, (List.dropLast_append_getLast hne).symm,
      h _ (List.getLast_mem hne)⟩

/-- What stands between two marks is solid with them. -/
theorem enclosed {c d : Char} (hc : isBlank c = false) (hd : isBlank d = false) (cs : List Char) :
    Solid (c :: (cs ++ [d])) :=
  ⟨⟨c, cs ++ [d], rfl, hc⟩, ⟨c :: cs, d, rfl, hd⟩⟩

theorem append (h : Solid cs) (h' : Solid ds) (between : List Char) :
    Solid (cs ++ (between ++ ds)) := by
  obtain ⟨c, rest, rfl, hc⟩ := h.begins
  obtain ⟨front, d, rfl, hd⟩ := h'.ends
  exact ⟨⟨c, rest ++ (between ++ (front ++ [d])), rfl, hc⟩,
    ⟨c :: rest ++ (between ++ front), d, by simp, hd⟩⟩

theorem append_singleton (h : Solid cs) {d : Char} (hd : isBlank d = false)
    (between : List Char) : Solid (cs ++ (between ++ [d])) := by
  obtain ⟨c, rest, rfl, hc⟩ := h.begins
  exact ⟨⟨c, rest ++ (between ++ [d]), rfl, hc⟩, ⟨c :: rest ++ between, d, by simp, hd⟩⟩

theorem trimStart_append (h : Solid cs) (tail : List Char) :
    trimStart (cs ++ tail) = cs ++ tail := by
  obtain ⟨c, rest, rfl, hc⟩ := h.begins
  rw [List.cons_append, trimStart_cons, hc]
  rfl

theorem trimEnd_eq (h : Solid cs) : trimEnd cs = cs := by
  obtain ⟨front, c, rfl, hc⟩ := h.ends
  rw [trimEnd_append_singleton, hc]
  rfl

theorem trim_append (h : Solid cs) (hgap : IsGap gap) : trim (cs ++ gap) = cs := by
  rw [trim, h.trimStart_append, hgap.trimEnd_append, h.trimEnd_eq]

theorem trim_eq (h : Solid cs) : trim cs = cs := by
  have := h.trim_append IsGap.nil
  rwa [List.append_nil] at this

theorem trim_gap_append (h : Solid cs) (hgap : IsGap gap) : trim (gap ++ cs) = cs := by
  rw [trim, hgap.trimStart_append, ← trim, h.trim_eq]

theorem trim_around (h : Solid cs) (hgap : IsGap gap) (hgap' : IsGap gap') :
    trim (gap ++ (cs ++ gap')) = cs := by
  rw [trim, hgap.trimStart_append, ← trim, h.trim_append hgap']

end Solid

/-! ## Cutting at a separator -/

theorem cut_of_not_mem {separator : Char} {front : List Char} (h : separator ∉ front)
    (back : List Char) : cut separator (front ++ separator :: back) = some (front, back) := by
  induction front with
  | nil => exact if_pos rfl
  | cons c cs ih =>
    have hne : c ≠ separator := fun hc => h (hc ▸ List.mem_cons_self)
    rw [List.cons_append, cut, if_neg hne, ih fun hmem => h (List.mem_cons_of_mem c hmem)]
    rfl

theorem cut_eq_none {separator : Char} {cs : List Char} (h : separator ∉ cs) :
    cut separator cs = none := by
  cases hcut : cut separator cs with
  | none => rfl
  | some parts =>
    obtain ⟨heq, -⟩ := cut_eq_some hcut
    exact absurd (heq ▸ List.mem_append_right _ List.mem_cons_self) h

theorem pieces_of_not_mem {separator : Char} {cs : List Char} (h : separator ∉ cs) :
    pieces separator cs = [cs] := by
  induction cs with
  | nil => rfl
  | cons c cs ih =>
    have hne : c ≠ separator := fun hc => h (hc ▸ List.mem_cons_self)
    rw [pieces, if_neg hne, ih fun hmem => h (List.mem_cons_of_mem c hmem)]

theorem not_mem_of_mem_pieces {separator : Char} {cs piece : List Char}
    (h : piece ∈ pieces separator cs) : separator ∉ piece := by
  induction cs generalizing piece with
  | nil =>
    rw [List.mem_singleton.1 h]
    exact List.not_mem_nil
  | cons c cs ih =>
    rw [pieces] at h
    split at h
    next =>
      rcases List.mem_cons.1 h with rfl | h
      · exact List.not_mem_nil
      · exact ih h
    next hc =>
      split at h
      next heq => exact absurd heq (pieces_ne_nil separator cs)
      next first rest heq =>
        rw [heq] at ih
        rcases List.mem_cons.1 h with rfl | h
        · exact List.not_mem_cons_of_ne_of_not_mem (Ne.symm hc) (ih List.mem_cons_self)
        · exact ih (List.mem_cons_of_mem _ h)

theorem pieces_intercalate {separator : Char} {piece : List Char} {rest : List (List Char)}
    (h : ∀ cs ∈ piece :: rest, separator ∉ cs) :
    pieces separator ([separator].intercalate (piece :: rest)) = piece :: rest := by
  induction rest generalizing piece with
  | nil => rw [List.intercalate_singleton, pieces_of_not_mem (h piece List.mem_cons_self)]
  | cons next rest ih =>
    obtain ⟨hpiece, hrest⟩ := List.forall_mem_cons.1 h
    rw [List.intercalate_cons_cons, List.append_assoc, List.singleton_append, pieces_append,
      pieces_of_not_mem hpiece, ih hrest]
    rfl

/-! ## Two parts -/

/-- Two parts with a separator between them and gaps around it. -/
def beside (separator : Char) (front after before back : List Char) : List Char :=
  front ++ (after ++ separator :: (before ++ back))

section

variable {separator : Char} {front after before back : List Char}

theorem Solid.beside (hfront : Solid front) (hback : Solid back) :
    Solid (beside separator front after before back) := by
  have h := hfront.append hback (after ++ separator :: before)
  rwa [List.append_assoc, List.cons_append] at h

theorem not_mem_beside {c : Char} (hspace : Literal.isSpace c = false) (hne : c ≠ separator)
    (hfront : c ∉ front) (hback : c ∉ back) (hafter : IsGap after) (hbefore : IsGap before) :
    c ∉ beside separator front after before back := by
  have h := hafter.not_mem hspace
  have h' := hbefore.not_mem hspace
  simp [Text.beside, hfront, hback, h, h', hne]

theorem cut_beside (hspace : Literal.isSpace separator = false) (hfront : separator ∉ front)
    (hafter : IsGap after) :
    cut separator (beside separator front after before back) =
      some (front ++ after, before ++ back) := by
  have hnot : separator ∉ front ++ after := by
    rw [List.mem_append]
    exact not_or.2 ⟨hfront, hafter.not_mem hspace⟩
  rw [beside, ← List.append_assoc, cut_of_not_mem hnot]

end

/-! ## Many parts -/

/-- The text is one part after the other, with separators between them. -/
inductive Separated {α : Type} (separator : Char) (R : List Char → α → Prop) :
    List Char → List α → Prop where
  | one {cs : List Char} {a : α} (h : R cs a) : Separated separator R cs [a]
  | more {cs after before rest : List Char} {a : α} {as : List α} (h : R cs a)
      (hafter : IsGap after) (hbefore : IsGap before) (hrest : Separated separator R rest as) :
      Separated separator R (beside separator cs after before rest) (a :: as)

namespace Separated

variable {α : Type} {separator : Char} {R : List Char → α → Prop} {cs : List Char} {as : List α}

theorem ne_nil (h : Separated separator R cs as) : as ≠ [] := by
  cases h <;> exact List.cons_ne_nil _ _

theorem solid (h : Separated separator R cs as) (hR : ∀ cs a, R cs a → Solid cs) : Solid cs := by
  induction h with
  | one h => exact hR _ _ h
  | more h _ _ _ ih => exact (hR _ _ h).beside ih

theorem not_mem (h : Separated separator R cs as) {c : Char}
    (hspace : Literal.isSpace c = false) (hne : c ≠ separator) (hR : ∀ cs a, R cs a → c ∉ cs) :
    c ∉ cs := by
  induction h with
  | one h => exact hR _ _ h
  | more h hafter hbefore _ ih => exact not_mem_beside hspace hne (hR _ _ h) ih hafter hbefore

/-- The parts are the trimmed pieces. -/
theorem forall₂_pieces (h : Separated separator R cs as)
    (hspace : Literal.isSpace separator = false)
    (hR : ∀ cs a, R cs a → Solid cs ∧ separator ∉ cs) {gap : List Char} (hgap : IsGap gap) :
    List.Forall₂ R ((pieces separator (gap ++ cs)).map trim) as := by
  induction h generalizing gap with
  | one h =>
    obtain ⟨hsolid, hnot⟩ := hR _ _ h
    rw [pieces_of_not_mem, List.map_singleton, hsolid.trim_gap_append hgap]
    · exact .cons h .nil
    · rw [List.mem_append]
      exact not_or.2 ⟨hgap.not_mem hspace, hnot⟩
  | @more cs after before rest a as h hafter hbefore hrest ih =>
    obtain ⟨hsolid, hnot⟩ := hR _ _ h
    have hpiece : separator ∉ gap ++ (cs ++ after) := by
      simp [hgap.not_mem hspace, hnot, hafter.not_mem hspace]
    have htext : gap ++ beside separator cs after before rest =
        gap ++ (cs ++ after) ++ separator :: (before ++ rest) := by
      simp [beside]
    rw [htext, pieces_append, pieces_of_not_mem hpiece, List.map_append, List.map_singleton,
      hsolid.trim_around hgap hafter]
    exact .cons h (ih hbefore)

end Separated

end Conditioning.Text
