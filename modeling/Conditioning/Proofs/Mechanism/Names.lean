import Conditioning.Proofs.Literal.Keys
import Conditioning.Proofs.Mechanism.Tables
import Conditioning.Proofs.Script.Gather
import Conditioning.Proofs.Vocabulary

/-!
# Cells by name

The keys of a dict name the cells of a table: elements and behaviors by one text, pairs by
a tuple of two (`TableSetting.Names`).  What is looked up under a key is the cell that it
names, if it names one (`TableSetting.Shape.slot_eq_ok_iff`).  No key names two cells and
no cell has two names, so the entries of a dict with distinct keys name distinct cells
(`TableSetting.entry_eq`).
-/

namespace Conditioning

/-! ## Slots -/

namespace Configuration

variable {vocabulary : Vocabulary} {parameter : String} {key : Literal}

theorem elementSlot_eq_ok_iff (hnodup : vocabulary.elements.Nodup) {e : ElementId} :
    elementSlot vocabulary parameter key = .ok e ↔
      ∃ name, key = .str name ∧ vocabulary.elements[e]? = some name := by
  rw [elementSlot]
  constructor
  · intro h
    split at h
    next name hname =>
      exact ⟨name, Literal.asText?_eq_some hname, (Vocabulary.element_eq_ok_iff hnodup).1 h⟩
    next => cases h
  · rintro ⟨name, rfl, h⟩
    exact (Vocabulary.element_eq_ok_iff hnodup).2 h

theorem behaviorSlot_eq_ok_iff (hnodup : vocabulary.behaviors.Nodup) {b : BehaviorId} :
    behaviorSlot vocabulary parameter key = .ok b ↔
      ∃ name, key = .str name ∧ vocabulary.behaviors[b]? = some name := by
  rw [behaviorSlot]
  constructor
  · intro h
    split at h
    next name hname =>
      exact ⟨name, Literal.asText?_eq_some hname, (Vocabulary.behavior_eq_ok_iff hnodup).1 h⟩
    next => cases h
  · rintro ⟨name, rfl, h⟩
    exact (Vocabulary.behavior_eq_ok_iff hnodup).2 h

theorem pairSlot_eq_ok_iff (helements : vocabulary.elements.Nodup)
    (hbehaviors : vocabulary.behaviors.Nodup) {cell : Nat} :
    pairSlot vocabulary parameter key = .ok cell ↔ ∃ elementName behaviorName e b,
      key = .tuple [.str elementName, .str behaviorName] ∧
        vocabulary.elements[e]? = some elementName ∧
        vocabulary.behaviors[b]? = some behaviorName ∧ vocabulary.pair e b = cell := by
  constructor
  · intro h
    unfold pairSlot at h
    split at h
    next elementName behaviorName =>
      obtain ⟨e, he, h⟩ := bind_eq_ok.1 h
      obtain ⟨b, hb, h⟩ := bind_eq_ok.1 h
      exact ⟨elementName, behaviorName, e, b, rfl, (Vocabulary.element_eq_ok_iff helements).1 he,
        (Vocabulary.behavior_eq_ok_iff hbehaviors).1 hb, Except.ok.inj h⟩
    next => cases h
  · rintro ⟨elementName, behaviorName, e, b, rfl, he, hb, rfl⟩
    rw [pairSlot, (Vocabulary.element_eq_ok_iff helements).2 he,
      (Vocabulary.behavior_eq_ok_iff hbehaviors).2 hb]
    rfl

end Configuration

namespace TableSetting

open Literal (KeysDiffer)

/-! ## Names -/

/-- A key names a cell. -/
inductive Names (vocabulary : Vocabulary) : Shape → Literal → Nat → Prop where
  | element {name : String} {e : ElementId} (h : vocabulary.elements[e]? = some name) :
    Names vocabulary .element (.str name) e
  | behavior {name : String} {b : BehaviorId} (h : vocabulary.behaviors[b]? = some name) :
    Names vocabulary .behavior (.str name) b
  | pair {elementName behaviorName : String} {e : ElementId} {b : BehaviorId}
    (he : vocabulary.elements[e]? = some elementName)
    (hb : vocabulary.behaviors[b]? = some behaviorName) :
    Names vocabulary .pair (.tuple [.str elementName, .str behaviorName]) (vocabulary.pair e b)

variable {vocabulary : Vocabulary} {shape : Shape} {key : Literal} {cell : Nat}

theorem Names.same_self (h : Names vocabulary shape key cell) : key.same key = true := by
  cases h with
  | element | behavior => exact Literal.same_self_str _
  | pair => exact Literal.same_self_pair _ _

/-- No cell has two names. -/
theorem Names.key_eq {key' : Literal} (h : Names vocabulary shape key cell)
    (h' : Names vocabulary shape key' cell) : key = key' := by
  cases h with
  | element h =>
    cases h' with
    | element h' => rw [Option.some.inj (h.symm.trans h')]
  | behavior h =>
    cases h' with
    | behavior h' => rw [Option.some.inj (h.symm.trans h')]
  | @pair _ _ e b he hb =>
    generalize hcell : vocabulary.pair e b = cell at h'
    cases h' with
    | pair he' hb' =>
      have hlt := (List.getElem?_eq_some_iff.1 hb).1
      have hlt' := (List.getElem?_eq_some_iff.1 hb').1
      obtain ⟨rfl, rfl⟩ := (Vocabulary.pair_eq_pair_iff hlt hlt').1 hcell
      rw [Option.some.inj (he.symm.trans he'), Option.some.inj (hb.symm.trans hb')]

/-- The cell of a key is the one that it names. -/
theorem Shape.slot_eq_ok_iff
    (hvocabulary : Vocabulary.ofNames vocabulary.elements vocabulary.behaviors = .ok vocabulary)
    (parameter : String) :
    shape.slot vocabulary parameter key = .ok cell ↔ Names vocabulary shape key cell := by
  obtain ⟨helements, hbehaviors, -⟩ := Vocabulary.nodup_of_ofNames hvocabulary
  cases shape with
  | element =>
    refine (Configuration.elementSlot_eq_ok_iff helements).trans ⟨?_, fun h => ?_⟩
    · rintro ⟨name, rfl, he⟩
      exact .element he
    · cases h with
      | element he => exact ⟨_, rfl, he⟩
  | behavior =>
    refine (Configuration.behaviorSlot_eq_ok_iff hbehaviors).trans ⟨?_, fun h => ?_⟩
    · rintro ⟨name, rfl, hb⟩
      exact .behavior hb
    · cases h with
      | behavior hb => exact ⟨_, rfl, hb⟩
  | pair =>
    refine (Configuration.pairSlot_eq_ok_iff helements hbehaviors).trans ⟨?_, fun h => ?_⟩
    · rintro ⟨elementName, behaviorName, e, b, rfl, he, hb, rfl⟩
      exact .pair he hb
    · cases h with
      | pair he hb => exact ⟨_, _, _, _, rfl, he, hb, rfl⟩

/-- No key names two cells. -/
theorem Names.cell_eq
    (hvocabulary : Vocabulary.ofNames vocabulary.elements vocabulary.behaviors = .ok vocabulary)
    {cell' : Nat} (h : Names vocabulary shape key cell) (h' : Names vocabulary shape key cell') :
    cell = cell' := by
  have hslot := (Shape.slot_eq_ok_iff hvocabulary "").2 h
  have hslot' := (Shape.slot_eq_ok_iff hvocabulary "").2 h'
  exact Except.ok.inj (hslot.symm.trans hslot')

/-- Two entries that name one cell are the same entry. -/
theorem entry_eq {entries : List (Literal × Literal)} (hkeys : KeysDiffer entries)
    {entry other : Literal × Literal}
    (hentry : entry ∈ entries) (hother : other ∈ entries)
    (hnames : Names vocabulary shape entry.1 cell) (hnames' : Names vocabulary shape other.1 cell) :
    entry = other :=
  hkeys entry hentry other hother (hnames.key_eq hnames') hnames.same_self

end TableSetting

end Conditioning
