import Conditioning.Proofs.Checked.Mechanism
import Conditioning.Record

/-!
# Checked records

A record has a cell of points for each pair and for each element.  Noting reads a
cell of the learner's tables and adds to the cell of the record.  Here both are
checked, and so is the step for which a phase is noted.  In a record that fits the
vocabulary, checked noting gives what noting gives, and the record still fits it.
-/

namespace Conditioning

namespace Record

/-- A record has a cell for each pair and for each element. -/
structure Fits (record : Record) (vocabulary : Vocabulary) : Prop where
  v : record.v.size = vocabulary.pairCount
  w : record.w.size = vocabulary.elementCount

variable (record : Record) (m : Mechanism Float) (l : Learner Float) (step : Nat)

/-! ## Noting -/

/-- Note the weight of a pair at a step. -/
def noteV? (pair step : Nat) (value : Float) : Option Record := do
  let v ← modify? record.v pair (Point.push step value)
  return { record with v }

/-- Note the salience of an element at a step. -/
def noteW? (element step : Nat) (value : Float) : Option Record := do
  let w ← modify? record.w element (Point.push step value)
  return { record with w }

/-- Note the phase of a step; steps left out before it belong to the same phase. -/
def notePhase? (phase step : Nat) : Option Record := do
  let grown := record.phases ++ Array.replicate (step + 1 - record.phases.size) phase
  let phases ← put? grown step phase
  return { record with phases }

/-- Note the weight that an element has with a behavior. -/
def noteWeight? (behavior : BehaviorId) (element : ElementId) : Option Record := do
  let pair ← m.vocabulary.pair? element behavior
  let weight ← m.weight? l element behavior
  record.noteV? pair step weight

/-- Note the salience of an element, if saliences are kept. -/
def noteSalience? (element : ElementId) : Option Record :=
  if m.hasSalience then do
    let salience ← l.w.read? element
    record.noteW? element step salience
  else some record

/-- Note the weights of some elements with one behavior, and their saliences if they are kept. -/
def noteUpdated? (behavior : BehaviorId) (elements : List ElementId) : Option Record :=
  elements.foldlM (fun record element => do
    let noted ← record.noteWeight? m l step behavior element
    noted.noteSalience? m l step element) record

/-- Note the weights of some elements with one behavior. -/
def noteShown? (behavior : BehaviorId) (elements : List ElementId) : Option Record :=
  elements.foldlM (fun record element => record.noteWeight? m l step behavior element) record

/-- Note every weight of an element. -/
def noteRow? (element : ElementId) : Option Record :=
  (List.range m.vocabulary.behaviorCount).foldlM (fun record behavior =>
    record.noteWeight? m l step behavior element) record

/-- Note every weight, and every salience if they are kept. -/
def noteAll? : Option Record :=
  (List.range m.vocabulary.elementCount).foldlM (fun record element => do
    let noted ← record.noteSalience? m l step element
    noted.noteRow? m l step element) record

/-! ## Every access is in range -/

theorem fits_empty (vocabulary : Vocabulary) : (empty vocabulary).Fits vocabulary :=
  ⟨Array.size_replicate, Array.size_replicate⟩

variable {record} in
theorem Fits.notePhase {vocabulary : Vocabulary} (h : record.Fits vocabulary) (phase step : Nat) :
    (record.notePhase phase step).Fits vocabulary :=
  ⟨h.v, h.w⟩

variable {record} in
theorem Fits.noteEntry {vocabulary : Vocabulary} (h : record.Fits vocabulary)
    (entry : HistoryEntry) : (record.noteEntry entry).Fits vocabulary :=
  ⟨h.v, h.w⟩

theorem notePhase?_eq (phase step : Nat) :
    record.notePhase? phase step = some (record.notePhase phase step) := by
  have hlt : step < (record.phases ++
      Array.replicate (step + 1 - record.phases.size) phase).size := by
    rw [Array.size_append, Array.size_replicate]
    omega
  rw [notePhase?, put?_eq hlt]
  rfl

variable {record m l} {behavior : BehaviorId} {element : ElementId} {elements : List ElementId}

/-- Checked noting gives a record, and it fits the vocabulary again. -/
def Notes (noted? : Option Record) (noted : Record) (vocabulary : Vocabulary) : Prop :=
  noted? = some noted ∧ noted.Fits vocabulary

theorem notes_foldlM {α : Type} {note? : Record → α → Option Record} {note : Record → α → Record}
    {xs : List α} {vocabulary : Vocabulary}
    (h : ∀ record : Record, record.Fits vocabulary → ∀ x ∈ xs,
      Notes (note? record x) (note record x) vocabulary)
    {record : Record} (hrecord : record.Fits vocabulary) :
    Notes (xs.foldlM note? record) (xs.foldl note record) vocabulary :=
  foldlM_eq_some (P := fun record => Fits record vocabulary) h hrecord

theorem Fits.noteWeight? (h : record.Fits m.vocabulary) (hl : l.Fits m.vocabulary)
    (helement : element < m.vocabulary.elementCount)
    (hbehavior : behavior < m.vocabulary.behaviorCount) :
    Notes (record.noteWeight? m l step behavior element)
      (record.noteV (m.vocabulary.pair element behavior) step (m.weight l element behavior))
      m.vocabulary := by
  have hpair := h.v ▸ m.vocabulary.pair_lt helement hbehavior
  have hweight := Mechanism.weight?_eq hl helement hbehavior
  refine ⟨?_, (Array.size_modify ..).trans h.v, h.w⟩
  rw [Record.noteWeight?, Vocabulary.pair?_eq helement hbehavior, Option.bind_eq_bind,
    Option.bind_some, hweight, Option.bind_eq_bind, Option.bind_some, noteV?, modify?_eq hpair]
  rfl

theorem Fits.noteSalience? (h : record.Fits m.vocabulary) (hl : l.Fits m.vocabulary)
    (helement : element < m.vocabulary.elementCount) :
    Notes (record.noteSalience? m l step element)
      (if m.hasSalience then record.noteW element step (l.w.read element) else record)
      m.vocabulary := by
  rw [Record.noteSalience?]
  split
  next =>
    have hcell := h.w ▸ helement
    refine ⟨?_, h.v, (Array.size_modify ..).trans h.w⟩
    rw [Table.read?_eq (hl.w ▸ helement), Option.bind_eq_bind, Option.bind_some, noteW?,
      modify?_eq hcell]
    rfl
  next => exact ⟨rfl, h⟩

theorem Fits.noteUpdated? (h : record.Fits m.vocabulary) (hl : l.Fits m.vocabulary)
    (helements : ∀ element ∈ elements, element < m.vocabulary.elementCount)
    (hbehavior : behavior < m.vocabulary.behaviorCount) :
    Notes (record.noteUpdated? m l step behavior elements)
      (record.noteUpdated m l step behavior elements) m.vocabulary := by
  refine notes_foldlM (fun record hrecord element helement => ?_) h
  obtain ⟨hweight, hnoted⟩ := hrecord.noteWeight? step hl (helements element helement) hbehavior
  rw [hweight]
  exact hnoted.noteSalience? step hl (helements element helement)

theorem Fits.noteShown? (h : record.Fits m.vocabulary) (hl : l.Fits m.vocabulary)
    (helements : ∀ element ∈ elements, element < m.vocabulary.elementCount)
    (hbehavior : behavior < m.vocabulary.behaviorCount) :
    Notes (record.noteShown? m l step behavior elements)
      (record.noteShown m l step behavior elements) m.vocabulary :=
  notes_foldlM (fun _ hrecord element helement =>
    hrecord.noteWeight? step hl (helements element helement) hbehavior) h

theorem Fits.noteRow? (h : record.Fits m.vocabulary) (hl : l.Fits m.vocabulary)
    (helement : element < m.vocabulary.elementCount) :
    Notes (record.noteRow? m l step element) (record.noteRow m l step element) m.vocabulary :=
  notes_foldlM (fun _ hrecord _ hbehavior =>
    hrecord.noteWeight? step hl helement (List.mem_range.1 hbehavior)) h

theorem Fits.noteAll? (h : record.Fits m.vocabulary) (hl : l.Fits m.vocabulary) :
    Notes (record.noteAll? m l step) (record.noteAll m l step) m.vocabulary := by
  refine notes_foldlM (fun record hrecord element helement => ?_) h
  have hlt := List.mem_range.1 helement
  obtain ⟨hsalience, hnoted⟩ := hrecord.noteSalience? step hl hlt
  rw [hsalience]
  exact hnoted.noteRow? step hl hlt

end Record

end Conditioning
