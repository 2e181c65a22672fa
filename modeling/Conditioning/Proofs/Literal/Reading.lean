import Conditioning.Literal.Reader

/-!
# What the reader accepts

The reader is one function of the whole text.  Here is what it accepts, form by
form: a text in quotes, a list, and a dict, given what is read inside.
-/

namespace Conditioning.Literal

/-- A value is read off the front of a text. -/
def Reads (text : List Char) (value : Literal) (rest : List Char) : Prop :=
  ∃ taken, readValue text = .ok taken ∧ taken.value = value ∧ taken.rest = rest

/-- Items up to a closing bracket are read, after those already read. -/
def ReadsItems (bracket : Char) (before : List Literal) (text : List Char) (items : List Literal)
    (rest : List Char) : Prop :=
  ∃ taken, readItems bracket before text = .ok taken ∧ taken.value.1 = items ∧ taken.rest = rest

/-- Entries up to the closing brace are read, and put into those already read. -/
def ReadsEntries (before : Dict) (text : List Char) (dict : Dict) (rest : List Char) : Prop :=
  ∃ taken, readEntries before text = .ok taken ∧ taken.value = dict ∧ taken.rest = rest

/-! ## Values -/

variable {text rest : List Char}

theorem Reads.quoted {quote : Char} {cs : List Char} (name : String) (rest : List Char)
    (hskip : skipSpace text = quote :: cs) (hquote : quote = '\'' ∨ quote = '"')
    (h : Literal.quoted quote cs = some (name.toList, rest)) : Reads text (.str name) rest := by
  have hread : ∃ taken, readQuoted quote cs = .ok taken ∧
      taken.value = .str name ∧ taken.rest = rest := by
    unfold readQuoted
    split
    next r hr =>
      cases h.symm.trans hr
      exact ⟨_, rfl, congrArg Literal.str String.ofList_toList, rfl⟩
    next hnone => cases hnone.symm.trans h
  obtain ⟨taken, hread, hvalue, rfl⟩ := hread
  unfold Reads
  rw [readValue]
  split
  next hnil => cases hskip.symm.trans hnil
  next c cs' hcons =>
    cases hskip.symm.trans hcons
    simp only [if_pos hquote, hread]
    exact ⟨_, rfl, hvalue, rfl⟩

theorem Reads.list {cs : List Char} {items : List Literal} (hskip : skipSpace text = '[' :: cs)
    (h : ReadsItems ']' [] cs items rest) : Reads text (.list items) rest := by
  obtain ⟨taken, hread, rfl, rfl⟩ := h
  unfold Reads
  rw [readValue]
  split
  next hnil => cases hskip.symm.trans hnil
  next c cs' hcons =>
    cases hskip.symm.trans hcons
    simp only [hread]
    exact ⟨_, rfl, rfl, rfl⟩

theorem Reads.dict {cs : List Char} {dict : Dict} (hskip : skipSpace text = '\x7b' :: cs)
    (h : ReadsEntries Dict.empty cs dict rest) : Reads text (.dict dict.entries) rest := by
  obtain ⟨taken, hread, rfl, rfl⟩ := h
  unfold Reads
  rw [readValue]
  split
  next hnil => cases hskip.symm.trans hnil
  next c cs' hcons =>
    cases hskip.symm.trans hcons
    simp only [hread]
    exact ⟨_, rfl, rfl, rfl⟩

/-! ## Items -/

section

variable {bracket : Char} {before items : List Literal} {item : Literal} {after : List Char}

theorem ReadsItems.last (hopen : eat? bracket text = none) (hitem : Reads text item after)
    (hcomma : eat? ',' after = none) (hclose : eat? bracket after = some rest) :
    ReadsItems bracket before text (before ++ [item]) rest := by
  obtain ⟨taken, hread, rfl, rfl⟩ := hitem
  unfold ReadsItems
  rw [readItems]
  split
  next hsome => cases hopen.symm.trans hsome
  next =>
    simp only [hread]
    split
    next hsome => cases hcomma.symm.trans hsome
    next =>
      split
      next hsome =>
        cases hclose.symm.trans hsome
        exact ⟨_, rfl, rfl, rfl⟩
      next hnone => cases hclose.symm.trans hnone

theorem ReadsItems.more {later : List Char} (hopen : eat? bracket text = none)
    (hitem : Reads text item after) (hcomma : eat? ',' after = some later)
    (hrest : ReadsItems bracket (before ++ [item]) later items rest) :
    ReadsItems bracket before text items rest := by
  obtain ⟨taken, hread, rfl, rfl⟩ := hitem
  obtain ⟨others, hread', rfl, rfl⟩ := hrest
  unfold ReadsItems
  rw [readItems]
  split
  next hsome => cases hopen.symm.trans hsome
  next =>
    simp only [hread]
    split
    next hsome =>
      cases hcomma.symm.trans hsome
      rw [hread']
      exact ⟨_, rfl, rfl, rfl⟩
    next hnone => cases hcomma.symm.trans hnone

end

/-! ## Entries -/

section

variable {before dict : Dict} {key value : Literal} {afterKey valueText after : List Char}

theorem ReadsEntries.last (hopen : eat? '\x7d' text = none) (hkey : Reads text key afterKey)
    (hisKey : key.isKey = true) (hcolon : eat? ':' afterKey = some valueText)
    (hvalue : Reads valueText value after) (hcomma : eat? ',' after = none)
    (hclose : eat? '\x7d' after = some rest) :
    ReadsEntries before text (before.put key value) rest := by
  obtain ⟨taken, hread, rfl, rfl⟩ := hkey
  obtain ⟨taken', hread', rfl, rfl⟩ := hvalue
  unfold ReadsEntries
  rw [readEntries]
  split
  next hsome => cases hopen.symm.trans hsome
  next =>
    simp only [hread, if_pos hisKey]
    split
    next hnone => cases hcolon.symm.trans hnone
    next hsome =>
      cases hcolon.symm.trans hsome
      simp only [hread']
      split
      next hsome => cases hcomma.symm.trans hsome
      next =>
        split
        next hsome =>
          cases hclose.symm.trans hsome
          exact ⟨_, rfl, rfl, rfl⟩
        next hnone => cases hclose.symm.trans hnone

theorem ReadsEntries.more {later : List Char} (hopen : eat? '\x7d' text = none)
    (hkey : Reads text key afterKey) (hisKey : key.isKey = true)
    (hcolon : eat? ':' afterKey = some valueText) (hvalue : Reads valueText value after)
    (hcomma : eat? ',' after = some later)
    (hrest : ReadsEntries (before.put key value) later dict rest) :
    ReadsEntries before text dict rest := by
  obtain ⟨taken, hread, rfl, rfl⟩ := hkey
  obtain ⟨taken', hread', rfl, rfl⟩ := hvalue
  obtain ⟨others, hread'', rfl, rfl⟩ := hrest
  unfold ReadsEntries
  rw [readEntries]
  split
  next hsome => cases hopen.symm.trans hsome
  next =>
    simp only [hread, if_pos hisKey]
    split
    next hnone => cases hcolon.symm.trans hnone
    next hsome =>
      cases hcolon.symm.trans hsome
      simp only [hread']
      split
      next hsome =>
        cases hcomma.symm.trans hsome
        rw [hread'']
        exact ⟨_, rfl, rfl, rfl⟩
      next hnone => cases hcomma.symm.trans hnone

end

/-! ## Whole texts -/

theorem parseSequence_of_reads {input : String} {value : Literal}
    (h : Reads input.toList value rest) (hrest : (skipSpace rest).isEmpty = true) :
    parseSequence input = .ok [value] := by
  obtain ⟨taken, hread, rfl, rfl⟩ := h
  have hne : ¬(skipSpace input.toList).isEmpty = true := by
    intro hempty
    rw [readValue] at hread
    split at hread
    next => cases hread
    next hcons =>
      rw [hcons] at hempty
      cases hempty
  have hsequence : readSequence input.toList = .ok [taken.value] := by
    rw [readSequence, if_neg hne]
    simp only [hread]
    rw [readSequence, if_pos hrest]
  rw [parseSequence, hsequence]

theorem parseDict_of_reads {input : String} {dict : Dict}
    (h : Reads input.toList (.dict dict.entries) rest) (hrest : (skipSpace rest).isEmpty = true) :
    parseDict input = .ok dict := by
  obtain ⟨taken, hread, hvalue, rfl⟩ := h
  have hparse : parse input = .ok (.dict dict.entries) := by
    rw [parse, hread]
    simp only [if_pos hrest, hvalue]
  rw [parseDict, hparse]

end Conditioning.Literal
