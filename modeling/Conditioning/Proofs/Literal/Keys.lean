import Conditioning.Parameters
import Conditioning.Proofs.Literal.RoundTrip

/-!
# Keys of dicts

Putting a value into a dict never adds a key that is there already, so the keys of a dict
stay distinct (`DistinctKeys.putEntry`).  Every dict that is read from a text is made this
way, at every depth (`wellKeyed_of_parse`), and so is every dict of settings
(`Parameters.distinctKeys_get?`).

A key may differ from itself, as a decimal number that is no number does.  The keys that
do not differ from themselves have one entry each (`DistinctKeys.keysDiffer`), wherever it
stands in the dict (`KeysDiffer.perm`).
-/

namespace Conditioning

namespace Literal

variable {entries : List (Literal × Literal)}

/-! ## Distinct keys -/

theorem mem_putEntry {key value : Literal} {entry : Literal × Literal}
    (h : entry ∈ Dict.putEntry key value entries) :
    (entry.1 = key ∨ ∃ other ∈ entries, other.1 = entry.1) ∧
      (entry.2 = value ∨ ∃ other ∈ entries, other.2 = entry.2) := by
  induction entries with
  | nil =>
    obtain rfl := List.mem_singleton.1 h
    exact ⟨.inl rfl, .inl rfl⟩
  | cons first entries ih =>
    rw [Dict.putEntry_cons] at h
    split at h
    next =>
      rcases List.mem_cons.1 h with rfl | hlater
      · exact ⟨.inr ⟨first, List.mem_cons_self, rfl⟩, .inl rfl⟩
      · have hmem := List.mem_cons_of_mem first hlater
        exact ⟨.inr ⟨entry, hmem, rfl⟩, .inr ⟨entry, hmem, rfl⟩⟩
    next =>
      rcases List.mem_cons.1 h with rfl | hlater
      · exact ⟨.inr ⟨entry, List.mem_cons_self, rfl⟩, .inr ⟨entry, List.mem_cons_self, rfl⟩⟩
      · have hbehind {other : Literal × Literal} (hother : other ∈ entries) :=
          List.mem_cons_of_mem first hother
        exact (ih hlater).imp
          (Or.imp_right fun ⟨other, hother, hkey⟩ => ⟨other, hbehind hother, hkey⟩)
          (Or.imp_right fun ⟨other, hother, hvalue⟩ => ⟨other, hbehind hother, hvalue⟩)

theorem DistinctKeys.putEntry (h : DistinctKeys entries) (key value : Literal) :
    DistinctKeys (Dict.putEntry key value entries) := by
  induction entries with
  | nil => exact List.pairwise_singleton _ _
  | cons first entries ih =>
    obtain ⟨hfirst, hlater⟩ := List.pairwise_cons.1 h
    rw [Dict.putEntry_cons]
    split
    next => exact List.pairwise_cons.2 ⟨hfirst, hlater⟩
    next hdiffer =>
      refine List.pairwise_cons.2 ⟨fun entry hentry => ?_, ih hlater⟩
      obtain ⟨hkey | ⟨other, hother, hkey⟩, -⟩ := mem_putEntry hentry
      · rw [hkey]
        exact eq_false_of_ne_true hdiffer
      · rw [← hkey]
        exact hfirst other hother

/-- No key that is the same as itself has two entries. -/
def KeysDiffer (entries : List (Literal × Literal)) : Prop :=
  ∀ entry ∈ entries, ∀ other ∈ entries, entry.1 = other.1 → entry.1.same entry.1 = true →
    entry = other

theorem DistinctKeys.keysDiffer (h : DistinctKeys entries) : KeysDiffer entries := by
  refine List.Pairwise.forall_of_forall_of_flip (fun _ _ _ _ => rfl) (h.imp ?_) (h.imp ?_)
  · intro entry later hdiffer hkey hself
    rw [← hkey, hself] at hdiffer
    cases hdiffer
  · intro entry later hdiffer hkey hself
    rw [← hkey, hself] at hdiffer
    cases hdiffer

theorem KeysDiffer.perm {entries' : List (Literal × Literal)} (h : KeysDiffer entries)
    (hperm : entries.Perm entries') : KeysDiffer entries' :=
  fun entry hentry other hother => h entry (hperm.mem_iff.2 hentry) other (hperm.mem_iff.2 hother)

theorem same_self_str (name : String) : (str name).same (str name) = true := by
  simp [same]

theorem same_self_pair (first second : String) :
    (tuple [str first, str second]).same (tuple [str first, str second]) = true := by
  simp [same, sameItems]

/-- A text has one entry. -/
theorem KeysDiffer.eq_of_str (h : KeysDiffer entries) {entry other : Literal × Literal}
    {name : String} (hentry : entry ∈ entries) (hother : other ∈ entries)
    (hkey : entry.1 = .str name) (hkey' : other.1 = .str name) : entry = other := by
  refine h entry hentry other hother (hkey.trans hkey'.symm) ?_
  rw [hkey]
  exact same_self_str name

/-! ## At every depth -/

/-- The dicts in a value have distinct keys, also those that stand in a key. -/
inductive WellKeyed : Literal → Prop where
  | null : WellKeyed null
  | bool (value : Bool) : WellKeyed (bool value)
  | int (value : Int64) : WellKeyed (int value)
  | float (value : Float) : WellKeyed (float value)
  | str (text : String) : WellKeyed (str text)
  | list {items : List Literal} (hitems : ∀ item ∈ items, WellKeyed item) : WellKeyed (list items)
  | tuple {items : List Literal} (hitems : ∀ item ∈ items, WellKeyed item) :
    WellKeyed (tuple items)
  | dict {entries : List (Literal × Literal)} (hdistinct : DistinctKeys entries)
    (hkeys : ∀ entry ∈ entries, WellKeyed entry.1)
    (hvalues : ∀ entry ∈ entries, WellKeyed entry.2) : WellKeyed (dict entries)

theorem WellKeyed.empty : WellKeyed (.dict Dict.empty.entries) := .dict .nil nofun nofun

theorem WellKeyed.put {d : Dict} (h : WellKeyed (.dict d.entries)) {key value : Literal}
    (hkey : WellKeyed key) (hvalue : WellKeyed value) :
    WellKeyed (.dict (d.put key value).entries) := by
  cases h with
  | dict hdistinct hkeys hvalues =>
    refine .dict (hdistinct.putEntry key value) (fun entry hentry => ?_) fun entry hentry => ?_
    · obtain ⟨hput | ⟨other, hother, hkept⟩, -⟩ := mem_putEntry hentry
      · exact hput ▸ hkey
      · exact hkept ▸ hkeys other hother
    · obtain ⟨-, hput | ⟨other, hother, hkept⟩⟩ := mem_putEntry hentry
      · exact hput ▸ hvalue
      · exact hkept ▸ hvalues other hother

theorem WellKeyed.merge {d : Dict} (h : WellKeyed (.dict d.entries))
    (hkeys : ∀ entry ∈ entries, WellKeyed entry.1)
    (hvalues : ∀ entry ∈ entries, WellKeyed entry.2) :
    WellKeyed (.dict (d.merge ⟨entries⟩).entries) := by
  induction entries generalizing d with
  | nil => exact h
  | cons entry entries ih =>
    obtain ⟨hkey, hkeys⟩ := List.forall_mem_cons.1 hkeys
    obtain ⟨hvalue, hvalues⟩ := List.forall_mem_cons.1 hvalues
    exact ih (h.put hkey hvalue) hkeys hvalues

/-! ## Dicts that are read -/

theorem wellKeyed_ofParenthesised {items : List Literal} (h : ∀ item ∈ items, WellKeyed item)
    (comma : Bool) : WellKeyed (ofParenthesised items comma) := by
  unfold ofParenthesised
  split
  next => exact h _ List.mem_cons_self
  next => exact .tuple h

theorem wellKeyed_of_ofNumeral {text : List Char} {isDecimal : Bool} {value : Literal}
    (h : ofNumeral text isDecimal = .ok value) : WellKeyed value := by
  unfold ofNumeral at h
  repeat' split at h
  all_goals cases h
  all_goals constructor

theorem wellKeyed_of_constant? {word : List Char} {value : Literal}
    (h : constant? word = some value) : WellKeyed value := by
  unfold constant? at h
  repeat' split at h
  all_goals cases h
  all_goals constructor

mutual

theorem HasValue.wellKeyed {text rest : List Char} {value : Literal}
    (h : HasValue text value rest) : WellKeyed value := by
  match h with
  | .quoted .. => exact .str _
  | .list _ h => exact .list (h.wellKeyed nofun)
  | .parenthesised _ h => exact wellKeyed_ofParenthesised (h.wellKeyed nofun) _
  | .dict _ h => exact h.wellKeyed .empty
  | .number _ _ _ hvalue => exact wellKeyed_of_ofNumeral hvalue
  | .constant _ _ hvalue => exact wellKeyed_of_constant? hvalue
termination_by structural h

theorem HasItems.wellKeyed {bracket : Char} {before items : List Literal} {text rest : List Char}
    {comma : Bool} (h : HasItems bracket before text items comma rest)
    (hbefore : ∀ item ∈ before, WellKeyed item) : ∀ item ∈ items, WellKeyed item := by
  match h with
  | .close _ => exact hbefore
  | .more _ hitem _ hrest =>
    exact hrest.wellKeyed (List.forall_mem_append.2
      ⟨hbefore, List.forall_mem_singleton.2 hitem.wellKeyed⟩)
  | .last _ hitem _ _ =>
    exact List.forall_mem_append.2 ⟨hbefore, List.forall_mem_singleton.2 hitem.wellKeyed⟩
termination_by structural h

theorem HasEntries.wellKeyed {before d : Dict} {text rest : List Char}
    (h : HasEntries before text d rest) (hbefore : WellKeyed (.dict before.entries)) :
    WellKeyed (.dict d.entries) := by
  match h with
  | .close _ => exact hbefore
  | .more _ hkey _ _ hvalue _ hrest =>
    exact hrest.wellKeyed (hbefore.put hkey.wellKeyed hvalue.wellKeyed)
  | .last _ hkey _ _ hvalue _ _ => exact hbefore.put hkey.wellKeyed hvalue.wellKeyed
termination_by structural h

end

/-- Every dict in a value that was read has distinct keys. -/
theorem wellKeyed_of_parse {input : String} {value : Literal} (h : parse input = .ok value) :
    WellKeyed value :=
  let ⟨_, h⟩ := exists_hasValue_of_parse h
  h.wellKeyed

theorem wellKeyed_of_parseDict {input : String} {d : Dict} (h : parseDict input = .ok d) :
    WellKeyed (.dict d.entries) := by
  unfold parseDict at h
  split at h
  next => cases h
  next hparse =>
    cases h
    exact wellKeyed_of_parse hparse
  next => cases h

theorem wellKeyed_of_readSequence {text : List Char} {items : List Literal}
    (h : readSequence text = .ok items) : ∀ item ∈ items, WellKeyed item := by
  fun_induction readSequence text generalizing items with
  | case1 =>
    cases h
    exact nofun
  | case2 => cases h
  | case3 text _ item hread _ items' hrest ih =>
    cases h
    have hitem : HasValue text item.value item.rest := reads_iff.1 ⟨item, hread, rfl, rfl⟩
    exact List.forall_mem_cons.2 ⟨hitem.wellKeyed, ih hrest⟩
  | case4 => cases h

theorem wellKeyed_of_parseSequence {input : String} {items : List Literal}
    (h : parseSequence input = .ok items) : ∀ item ∈ items, WellKeyed item := by
  unfold parseSequence at h
  split at h
  next => cases h
  next hread =>
    cases h
    exact wellKeyed_of_readSequence hread

end Literal

/-! ## Dicts of settings -/

namespace Parameters

open Literal (WellKeyed DistinctKeys)

theorem wellKeyed_foldlM_merge? {blocks : List Dict} {p p' : Parameters}
    (hblocks : ∀ block ∈ blocks, WellKeyed (.dict block.entries))
    (hp : WellKeyed (.dict p.values.entries)) (h : blocks.foldlM merge? p = .ok p') :
    WellKeyed (.dict p'.values.entries) := by
  induction blocks generalizing p with
  | nil =>
    cases h
    exact hp
  | cons block blocks ih =>
    obtain ⟨hblock, hlater⟩ := List.forall_mem_cons.1 hblocks
    rw [List.foldlM_cons] at h
    obtain ⟨middle, hmiddle, h⟩ := bind_eq_ok.1 h
    refine ih hlater ?_ h
    unfold merge? at hmiddle
    split at hmiddle
    next => cases hmiddle
    next =>
      cases hmiddle
      have hsubset := (List.takeWhile_sublist isNamed (l := block.entries)).subset
      cases hblock with
      | dict _ hkeys hvalues =>
        exact hp.merge (fun entry hentry => hkeys entry (hsubset hentry))
          fun entry hentry => hvalues entry (hsubset hentry)

/-- A setting that is a dict has distinct keys, if the blocks of settings were read. -/
theorem distinctKeys_get? {blocks : List Dict} {p : Parameters}
    (hblocks : ∀ block ∈ blocks, ∃ text, Literal.parseDict text = .ok block)
    (h : blocks.foldlM merge? empty = .ok p) {name : String} {entries : List (Literal × Literal)}
    (hget : p.get? name = some (.dict entries)) : DistinctKeys entries := by
  have hkeyed : WellKeyed (.dict p.values.entries) := by
    refine wellKeyed_foldlM_merge? (fun block hblock => ?_) .empty h
    obtain ⟨text, htext⟩ := hblocks block hblock
    exact Literal.wellKeyed_of_parseDict htext
  obtain ⟨entry, hentry, hvalue⟩ := Option.map_eq_some_iff.1 hget
  cases hkeyed with
  | dict _ _ hvalues =>
    have hdict := hvalues entry (List.mem_of_find?_eq_some hentry)
    rw [hvalue] at hdict
    cases hdict with
    | dict hdistinct _ _ => exact hdistinct

end Parameters

end Conditioning
