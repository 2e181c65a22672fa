import Conditioning.Proofs.Record.Writes
import Mathlib.Data.List.Induction

/-!
# Reading back what was noted

A record may be told anything in any order (`Record.Note`).  What it is told of one cell
are writes, each with its step.  If their steps do not go back, the series of the cell is
that of the writes: at every step the value of the last write not after it, and before the
first write the value that its step was left with (`Record.series_reads_writes`).  Nothing
else that is noted matters to the cell, except that the phases tell how many steps there
are.
-/

namespace Conditioning

namespace Point

/-! ## What writes tell -/

/-- Writes that do not go back. -/
def Ordered (writes : List Point) : Prop :=
  writes.Pairwise fun write later => write.step ≤ later.step

/-- The value of the last write whose step is of a kind. -/
def lastValue? (writes : List Point) (kind : Nat → Bool) : Option Float :=
  ((writes.filter fun write => kind write.step).getLast?).map Point.value

/-- The value that writes, in their order, tell of a step: that of the last one not after the
step; if all are after it, that of the last one of the first step; and zero if there is none. -/
def toldAt (writes : List Point) (k : Nat) : Float :=
  ((lastValue? writes fun step => step ≤ k).or
    (writes.head?.bind fun first => lastValue? writes fun step => step = first.step)).getD 0.0

theorem lastValue?_append_singleton (writes : List Point) (last : Point) (kind : Nat → Bool) :
    lastValue? (writes ++ [last]) kind =
      if kind last.step then some last.value else lastValue? writes kind := by
  rw [lastValue?, lastValue?, List.filter_append]
  by_cases h : kind last.step = true
  · simp [h]
  · simp [h]

theorem lastValue?_eq_none {writes : List Point} {kind : Nat → Bool}
    (h : ∀ write ∈ writes, kind write.step = false) : lastValue? writes kind = none := by
  rw [lastValue?, List.filter_eq_nil_iff.2 fun write hwrite => by simp [h write hwrite]]
  rfl

section

variable {writes : List Point} {last : Point} {k : Nat}

theorem toldAt_append_of_le (h : last.step ≤ k) : toldAt (writes ++ [last]) k = last.value := by
  rw [toldAt, lastValue?_append_singleton, if_pos (decide_eq_true h)]
  rfl

/-- A write tells nothing of the steps before it if there is one of an earlier step. -/
theorem toldAt_append_of_lt (hordered : Ordered writes) (h : k < last.step)
    (hearlier : ∃ write ∈ writes, write.step < last.step) :
    toldAt (writes ++ [last]) k = toldAt writes k := by
  obtain ⟨write, hwrite, hstep⟩ := hearlier
  cases writes with
  | nil => cases hwrite
  | cons first rest =>
    have hfirst : first.step < last.step := by
      rcases List.mem_cons.1 hwrite with rfl | hmem
      · exact hstep
      · exact Nat.lt_of_le_of_lt ((List.pairwise_cons.1 hordered).1 write hmem) hstep
    have hhead : (first :: rest ++ [last]).head? = some first := rfl
    rw [toldAt, toldAt, lastValue?_append_singleton, if_neg (by simpa using h), hhead,
      Option.bind_some, lastValue?_append_singleton, if_neg (by simpa using Nat.ne_of_gt hfirst)]
    rfl

/-- Writes of one step tell of the steps before it what the last of them tells of it. -/
theorem toldAt_append_of_forall_eq (h : k < last.step)
    (hall : ∀ write ∈ writes, write.step = last.step) :
    toldAt (writes ++ [last]) k = last.value := by
  have hnone : lastValue? writes (fun step => step ≤ k) = none :=
    lastValue?_eq_none fun write hwrite => by simpa [hall write hwrite] using h
  obtain ⟨first, hfirst⟩ : ∃ first, (writes ++ [last]).head? = some first :=
    Option.isSome_iff_exists.1 (by simp)
  have hstep : last.step = first.step := by
    rcases List.mem_append.1 (List.mem_of_mem_head? hfirst) with hmem | hmem
    · exact (hall first hmem).symm
    · rw [List.mem_singleton.1 hmem]
  rw [toldAt, lastValue?_append_singleton, if_neg (by simpa using h), hnone, Option.none_or, hfirst,
    Option.bind_some, lastValue?_append_singleton, if_pos (by simpa using hstep)]
  rfl

end

/-! ## What writes leave -/

/-- Add the points of writes to points listed from the newest to the oldest. -/
def addAll (points writes : List Point) : List Point :=
  writes.foldl (fun points write => push write.step write.value points) points

/-- Points hold what writes tell. -/
structure Holds (points writes : List Point) : Prop where
  descending : Descending points
  steps : ∀ step, (∃ point ∈ points, point.step = step) ↔ ∃ write ∈ writes, write.step = step
  valueAt_eq : ∀ k, valueAt points k = toldAt writes k

theorem steps_push {points : List Point} {step : Nat} {value : Float} {step' : Nat} :
    (∃ point ∈ push step value points, point.step = step') ↔
      (∃ point ∈ points, point.step = step') ∨ step = step' := by
  constructor
  · rintro ⟨point, hpoint, rfl⟩
    rcases mem_push hpoint with rfl | hpoint
    · exact .inr rfl
    · exact .inl ⟨point, hpoint, rfl⟩
  · intro h
    by_cases heq : step = step'
    · exact ⟨_, mk_mem_push step value points, heq⟩
    · obtain ⟨point, hpoint, hstep⟩ := h.resolve_right heq
      exact ⟨point, mem_push_of_ne hpoint (hstep ▸ Ne.symm heq), hstep⟩

/-- Of points of one step only the last one stays. -/
theorem push_of_forall_eq {points : List Point} (h : Descending points) {step : Nat}
    (hall : ∀ point ∈ points, point.step = step) (value : Float) :
    push step value points = [⟨step, value⟩] := by
  cases points with
  | nil => rfl
  | cons newest older =>
    obtain ⟨hnewest, hall⟩ := List.forall_mem_cons.1 hall
    have holder : older = [] := by
      refine List.eq_nil_iff_forall_not_mem.2 fun point hpoint => ?_
      have hlt := (List.pairwise_cons.1 h).1 point hpoint
      rw [hall point hpoint, hnewest] at hlt
      exact Nat.lt_irrefl step hlt
    rw [push, if_pos hnewest, holder]

namespace Holds

variable {points writes : List Point} {last : Point}

theorem nil : Holds [] [] where
  descending := .nil
  steps _ := Iff.rfl
  valueAt_eq _ := rfl

theorem valueAt_push (h : Holds points writes) (hordered : Ordered (writes ++ [last])) (k : Nat) :
    valueAt (push last.step last.value points) k = toldAt (writes ++ [last]) k := by
  obtain ⟨hwrites, -, hle⟩ := List.pairwise_append.1 hordered
  rcases Nat.lt_or_ge k last.step with hlt | hge
  · by_cases hearlier : ∃ write ∈ writes, write.step < last.step
    · obtain ⟨write, hwrite, hstep⟩ := hearlier
      obtain ⟨point, hpoint, heq⟩ := (h.steps _).2 ⟨write, hwrite, rfl⟩
      rw [valueAt_push_of_lt hlt _ ⟨point, hpoint, heq ▸ hstep⟩,
        toldAt_append_of_lt hwrites hlt ⟨write, hwrite, hstep⟩]
      exact h.valueAt_eq k
    · -- all writes so far are of the step of the last one, which replaces them
      have hall : ∀ write ∈ writes, write.step = last.step := fun write hwrite =>
        Nat.le_antisymm (hle write hwrite last List.mem_cons_self)
          (Nat.le_of_not_lt fun hlt => hearlier ⟨write, hwrite, hlt⟩)
      have hpoints : ∀ point ∈ points, point.step = last.step := by
        intro point hpoint
        obtain ⟨write, hwrite, hstep⟩ := (h.steps _).1 ⟨point, hpoint, rfl⟩
        rw [← hstep, hall write hwrite]
      rw [push_of_forall_eq h.descending hpoints, toldAt_append_of_forall_eq hlt hall]
      rfl
  · rw [valueAt_push_of_le hge, toldAt_append_of_le hge]

theorem push (h : Holds points writes) (hordered : Ordered (writes ++ [last])) :
    Holds (push last.step last.value points) (writes ++ [last]) where
  descending := by
    refine h.descending.push (fun point hpoint => ?_) last.value
    obtain ⟨write, hwrite, hstep⟩ := (h.steps _).1 ⟨point, hpoint, rfl⟩
    exact hstep ▸ (List.pairwise_append.1 hordered).2.2 write hwrite last List.mem_cons_self
  steps step := by
    rw [steps_push, h.steps]
    constructor
    · rintro (⟨write, hwrite, hstep⟩ | hstep)
      · exact ⟨write, List.mem_append_left _ hwrite, hstep⟩
      · exact ⟨last, List.mem_append_right _ List.mem_cons_self, hstep⟩
    · rintro ⟨write, hwrite, hstep⟩
      rcases List.mem_append.1 hwrite with hwrite | hwrite
      · exact .inl ⟨write, hwrite, hstep⟩
      · exact .inr (List.mem_singleton.1 hwrite ▸ hstep)
  valueAt_eq := h.valueAt_push hordered

theorem addAll (hordered : Ordered writes) : Holds (addAll [] writes) writes := by
  induction writes using List.reverseRecOn with
  | nil => exact .nil
  | append_singleton writes last ih =>
    rw [Point.addAll, List.foldl_append]
    exact (ih (List.pairwise_append.1 hordered).1).push hordered

theorem series_eq (h : Holds points writes) (n : Nat) :
    series points n = (List.range n).map (toldAt writes) := by
  refine List.ext_getElem? fun k => ?_
  rcases Nat.lt_or_ge k n with hlt | hge
  · rw [getElem?_series h.descending hlt, h.valueAt_eq, List.getElem?_map,
      List.getElem?_range hlt, Option.map_some]
  · rw [List.getElem?_eq_none (by rw [length_series]; exact hge),
      List.getElem?_eq_none (by simpa using hge)]

end Holds

theorem addAll_nil_eq_nil_iff {writes : List Point} (hordered : Ordered writes) :
    addAll [] writes = [] ↔ writes = [] := by
  have hsteps := (Holds.addAll hordered).steps
  constructor
  · intro h
    refine List.eq_nil_iff_forall_not_mem.2 fun write hwrite => ?_
    obtain ⟨point, hpoint, -⟩ := (hsteps _).2 ⟨write, hwrite, rfl⟩
    rw [h] at hpoint
    cases hpoint
  · rintro rfl
    rfl

end Point

namespace Record

/-! ## Notes -/

/-- Something that a record is told. -/
inductive Note where
  /-- The weight of a pair at a step. -/
  | weight (pair step : Nat) (value : Float)
  /-- The salience of an element at a step. -/
  | salience (element : ElementId) (step : Nat) (value : Float)
  /-- The phase of a step. -/
  | phase (phase step : Nat)
  /-- What was shown and done. -/
  | entry (entry : HistoryEntry)
  /-- The last step, with the last entry. -/
  | close (step : Nat) (entry : Option HistoryEntry)

/-- Tell a record something. -/
def note (record : Record) : Note → Record
  | .weight pair step value => record.noteV pair step value
  | .salience element step value => record.noteW element step value
  | .phase phase step => record.notePhase phase step
  | .entry entry => record.noteEntry entry
  | .close step entry => record.close step entry

/-- The record that notes make. -/
def ofNotes (vocabulary : Vocabulary) (notes : List Note) : Record :=
  notes.foldl note (empty vocabulary)

/-- What a note writes of the weight of a pair. -/
def Note.weightOf? (pair : Nat) : Note → Option Point
  | .weight pair' step value => if pair' = pair then some ⟨step, value⟩ else none
  | _ => none

/-- What a note writes of the salience of an element. -/
def Note.salienceOf? (element : ElementId) : Note → Option Point
  | .salience element' step value => if element' = element then some ⟨step, value⟩ else none
  | _ => none

/-- The step whose phase a note tells. -/
def Note.step? : Note → Option Nat
  | .phase _ step => some step
  | _ => none

/-- The writes of the weight of a pair. -/
def weightsOf (pair : Nat) (notes : List Note) : List Point :=
  notes.filterMap (Note.weightOf? pair)

/-- The writes of the salience of an element. -/
def saliencesOf (element : ElementId) (notes : List Note) : List Point :=
  notes.filterMap (Note.salienceOf? element)

/-! ## What notes leave in a cell -/

theorem getElem?_modify_push (cells : Array (List Point)) (cell step : Nat) (value : Float)
    (i : Nat) :
    (cells.modify cell (Point.push step value))[i]? = cells[i]?.map fun points =>
      Point.addAll points (if cell = i then some ⟨step, value⟩ else none : Option Point).toList := by
  rw [Array.getElem?_modify]
  by_cases h : cell = i
  · simp only [h, if_true]
    rfl
  · simp [h, Point.addAll]

section

variable (record : Record) (told : Note)

/-- A note of the weight of a pair writes its cell, and no other note does. -/
theorem getElem?_v_note (pair : Nat) :
    (record.note told).v[pair]? =
      record.v[pair]?.map fun points => Point.addAll points (told.weightOf? pair).toList := by
  cases told with
  | weight => exact getElem?_modify_push ..
  | _ => exact Option.map_id'.symm

theorem getElem?_w_note (element : ElementId) :
    (record.note told).w[element]? =
      record.w[element]?.map fun points => Point.addAll points (told.salienceOf? element).toList := by
  cases told with
  | salience => exact getElem?_modify_push ..
  | _ => exact Option.map_id'.symm

end

/-- Notes leave in a cell what they write there one after the other. -/
theorem getElem?_foldl_note (cells : Record → Array (List Point)) {i : Nat}
    {write? : Note → Option Point}
    (hnote : ∀ record told, (cells (note record told))[i]? =
      (cells record)[i]?.map fun points => Point.addAll points (write? told).toList)
    (notes : List Note) (record : Record) :
    (cells (notes.foldl note record))[i]? =
      (cells record)[i]?.map fun points => Point.addAll points (notes.filterMap write?) := by
  induction notes generalizing record with
  | nil => exact Option.map_id'.symm
  | cons told notes ih =>
    rw [List.foldl_cons, ih, hnote, Option.map_map, List.filterMap_cons]
    cases write? told <;> rfl

theorem stepCount_foldl_note (notes : List Note) (record : Record) :
    (notes.foldl note record).stepCount =
      (notes.filterMap Note.step?).foldl (fun count step => max count (step + 1))
        record.stepCount := by
  induction notes generalizing record with
  | nil => rfl
  | cons told notes ih =>
    rw [List.foldl_cons, ih]
    cases told with
    | phase phase step =>
      rw [note, stepCount, size_phases_notePhase]
      rfl
    | _ => rfl

section

variable (vocabulary : Vocabulary) (notes : List Note)

theorem getD_v_ofNotes {pair : Nat} (hpair : pair < vocabulary.pairCount) :
    (ofNotes vocabulary notes).v.getD pair [] =
      Point.addAll [] (weightsOf pair notes) := by
  have hempty : (empty vocabulary).v[pair]? = some [] := by simp [empty, hpair]
  rw [Array.getD_eq_getD_getElem?, ofNotes,
    getElem?_foldl_note Record.v fun record told => getElem?_v_note record told pair, hempty]
  rfl

theorem getD_w_ofNotes {element : ElementId} (helement : element < vocabulary.elementCount) :
    (ofNotes vocabulary notes).w.getD element [] =
      Point.addAll [] (saliencesOf element notes) := by
  have hempty : (empty vocabulary).w[element]? = some [] := by simp [empty, helement]
  rw [Array.getD_eq_getD_getElem?, ofNotes,
    getElem?_foldl_note Record.w fun record told => getElem?_w_note record told element, hempty]
  rfl

end

theorem seriesW_eq (record : Record) (element : ElementId) :
    record.seriesW element =
      if record.w.getD element [] = [] then []
      else Point.series (record.w.getD element []) record.stepCount := by
  rw [seriesW]
  split
  next h => rw [if_pos h]
  next h => rw [if_neg h]

/-- Whatever is noted, the series of a cell whose writes do not go back is read off these writes;
a salience that was never written has none. -/
theorem series_reads_writes (vocabulary : Vocabulary) (notes : List Note) :
    let record := ofNotes vocabulary notes
    record.stepCount =
      (notes.filterMap Note.step?).foldl (fun count step => max count (step + 1)) 0 ∧
    (∀ pair < vocabulary.pairCount, Point.Ordered (weightsOf pair notes) →
      record.seriesV pair =
        (List.range record.stepCount).map (Point.toldAt (weightsOf pair notes))) ∧
    ∀ element < vocabulary.elementCount, Point.Ordered (saliencesOf element notes) →
      record.seriesW element =
        if saliencesOf element notes = [] then []
        else (List.range record.stepCount).map (Point.toldAt (saliencesOf element notes)) := by
  intro record
  refine ⟨stepCount_foldl_note notes (empty vocabulary), ?_, ?_⟩
  · intro pair hpair hordered
    rw [seriesV, getD_v_ofNotes vocabulary notes hpair]
    exact (Point.Holds.addAll hordered).series_eq _
  · intro element helement hordered
    rw [seriesW_eq, getD_w_ofNotes vocabulary notes helement]
    simp only [Point.addAll_nil_eq_nil_iff hordered]
    split
    next => rfl
    next => exact (Point.Holds.addAll hordered).series_eq _

/-- Notes of one element and two behaviors: the first pair is written at the start and later, the
second one late, and both twice at one step.  The salience is not written. -/
def twicePerStep : List Note := [
  .phase 0 0, .weight 0 0 0.0, .phase 0 1, .phase 0 2, .weight 0 2 0.5, .weight 0 2 0.7,
  .weight 1 3 0.2, .phase 0 4, .weight 1 3 0.4, .weight 0 4 1.0]

/-- What the pairs were told last holds on, and what the second one was told first also holds
before. -/
theorem series_reads_writes_twicePerStep :
    let vocabulary : Vocabulary := ⟨["cs"], ["wait", "press"]⟩
    Point.Ordered (weightsOf 0 twicePerStep) ∧ Point.Ordered (weightsOf 1 twicePerStep) ∧
      Point.Ordered (saliencesOf 0 twicePerStep) ∧
      (ofNotes vocabulary twicePerStep).seriesV 0 = [0.0, 0.0, 0.7, 0.7, 1.0] ∧
      (ofNotes vocabulary twicePerStep).seriesV 1 = [0.4, 0.4, 0.4, 0.4, 0.4] ∧
      (ofNotes vocabulary twicePerStep).seriesW 0 = [] := by
  intro vocabulary
  have hfirst : weightsOf 0 twicePerStep = [⟨0, 0.0⟩, ⟨2, 0.5⟩, ⟨2, 0.7⟩, ⟨4, 1.0⟩] := rfl
  have hsecond : weightsOf 1 twicePerStep = [⟨3, 0.2⟩, ⟨3, 0.4⟩] := rfl
  have hzero : Point.Ordered (weightsOf 0 twicePerStep) := by simp [Point.Ordered, hfirst]
  have hone : Point.Ordered (weightsOf 1 twicePerStep) := by simp [Point.Ordered, hsecond]
  have hnone : Point.Ordered (saliencesOf 0 twicePerStep) := .nil
  obtain ⟨hcount, hweights, hsaliences⟩ := series_reads_writes vocabulary twicePerStep
  rw [hcount] at hweights
  exact ⟨hzero, hone, hnone, hweights 0 (by decide) hzero, hweights 1 (by decide) hone,
    hsaliences 0 (by decide) hnone⟩

end Record

end Conditioning
