import Conditioning.Proofs.Query.Selection
import Conditioning.Proofs.Run.Steps

/-!
# Two counts of an element

An element is counted twice.  A phase that ends with the element counts it while the
phase runs, and is over when there were enough occurrences.  Later a query counts
the element in the record, at the steps of the phase.

The two agree because the record notes what the calls of the world showed, and in
which phase (`Record.Shows`).  The phase has counted its share of that
(`World.countP_of_exhausts`), and the query finds the same share again
(`Record.Shows.countP_occurrences`).  So the last value of the query is the number
that the end condition asks for (`Experiment.getLast?_evaluate_n`).
-/

namespace Conditioning

/-! ## The count of a phase -/

namespace World

variable {world : World}

/-- When a phase that ends with what it shows is exhausted, what it ends with was shown in it as
often as its end condition asks for. -/
theorem countP_of_exhausts {phases : List Phase}
    (hcompiled : ∀ phase ∈ phases, ∃ (text : PhaseText) (vocabulary : Vocabulary),
      text.compile vocabulary = .ok phase)
    (hworld : ofPhases phases = .ok world) (calls : List Call) {last : Call} {i : Nat}
    (hexhausts : world.Exhausts (stateAfter world.next world.start calls) last i)
    {phase : Phase} (hphase : world.phases[i]? = some phase) (honce : phase.ShowsKeyOnce) :
    ((emissions world.next world.start calls).countP fun emission =>
        emission.phase == i && phase.ending.key.occursIn (emission.line, emission.stimulus)) =
      phase.ending.threshold := by
  obtain ⟨hphases, hne⟩ := ofPhases_eq_ok hworld
  rw [← hphases] at hcompiled hne
  have hthreshold := PhaseText.threshold_pos_of_compiled hcompiled
  have hkeys := PhaseText.key_of_compiled hcompiled
  obtain ⟨hordered, hbegun⟩ := ordered_of_calls hthreshold hne calls
  obtain ⟨⟨phaseState, hstate, hover⟩, hnothing⟩ :=
    over_of_exhausts hthreshold hordered hbegun hexhausts hphase
  have hcounts := ((Counts.of_calls hkeys calls).next hkeys last.response last.generator).phases i
    phase phaseState hphase hstate
  rw [exchangesOf_append, hnothing, List.append_nil] at hcounts
  have hoccurrences : ∀ exchange ∈ exchangesOf i (exchanges world.next world.start calls),
      phase.ending.key.occurrences exchange =
        if phase.ending.key.occursIn exchange.shown then 1 else 0 :=
    fun exchange hexchange => honce.occurrences_eq (hcounts.stimulus exchange hexchange)
  have hmem := List.mem_of_getElem? hphase
  have hcounting := honce.countsByOne (PhaseText.threshold_lt_of_compiled hcompiled phase hmem)
  obtain ⟨htotal, -⟩ := hcounts.exact hcounting (hthreshold phase hmem) hover
  rw [EndKey.total_eq_countP _ hoccurrences] at htotal
  rw [← htotal, ← map_shown_exchanges, exchangesOf, List.countP_map, List.countP_map,
    List.countP_filter]
  refine List.countP_congr fun exchange _ => ?_
  simp [and_comm]

end World

/-! ## The count of a query -/

/-- The occurrences of an element start at the steps whose stimuli have it. -/
theorem countP_occurrenceSteps_element (e : ElementId) {entries : List HistoryEntry}
    {shown : List Emission}
    (h : entries.map HistoryEntry.stimulus = shown.map Emission.stimulus) (first i : Nat) :
    ((occurrenceSteps false [.elements [e]] (tokens entries)).countP fun step =>
        (first :: shown.map Emission.phase)[step]? = some i) =
      shown.countP fun emission => emission.phase == i && emission.stimulus.contains e := by
  induction entries generalizing shown first with
  | nil =>
    obtain rfl := List.map_eq_nil_iff.1 h.symm
    rfl
  | cons entry entries ih =>
    obtain ⟨emission, rest, rfl, hstimulus, hrest⟩ := List.map_eq_cons_iff.1 h.symm
    have hmeets : meetsFront false [.elements [e]] (tokens (entry :: entries)) =
        emission.stimulus.contains e := by
      simp [tokens, meetsFront, Item.meets, hstimulus]
    have hlater : ((occurrenceSteps false [.elements [e]] (tokens entries)).map (· + 1)).countP
        (fun step => (first :: (emission :: rest).map Emission.phase)[step]? = some i) =
          rest.countP fun emission => emission.phase == i && emission.stimulus.contains e := by
      rw [List.countP_map, ← ih hrest.symm emission.phase]
      rfl
    have hresponse : meetsFront false [.elements [e]] (.done entry.response :: tokens entries) =
        false := by
      simp [meetsFront, Item.meets]
    rw [tokens] at hmeets ⊢
    rw [occurrenceSteps_cons_cons, List.countP_append, List.countP_append, hlater, hmeets,
      hresponse, List.countP_cons, Nat.add_comm]
    cases emission.stimulus.contains e <;> simp [List.countP_cons]

/-- The occurrences of an element that start in a phase are the stimuli of the phase that have
it. -/
theorem Record.Shows.countP_occurrences {record : Record} {shown : List Emission}
    (h : record.Shows shown) (e : ElementId) (i : Nat) :
    ((occurrences false [.elements [e]] (tokens record.history.toList)).countP fun place =>
        record.phaseOf? (stepOf place) = some i) =
      shown.countP fun emission => emission.phase == i && emission.stimulus.contains e := by
  rw [← countP_occurrenceSteps_element e h.stimuli 0 i, ← h.phases, occurrenceSteps,
    List.countP_map]
  refine List.countP_congr fun place _ => ?_
  rw [Function.comp_apply, decide_eq_true_iff, decide_eq_true_iff, Array.getElem?_toList]
  rfl

/-- The last value of a count that is added up over the steps of some phases is the number of
occurrences that start in these phases, unless there is none. -/
theorem getLast?_countSeries {run : RunRecord} {record : Record} {options : Options}
    (hcumulative : options.cumulative = true) (hsteps : options.steps = none)
    (hne : options.phases ≠ []) (hphases : ∀ label ∈ options.phases, (run.phase? label).isSome)
    {steps : List Nat} (h : selectedSteps run record options = .ok steps) {items : List Item}
    (hpos : 0 < (occurrences options.exactN items (tokens record.history.toList)).countP
      fun place => run.Named record options.phases (stepOf place)) :
    (countSeries record options steps items).getLast? =
      some ((occurrences options.exactN items (tokens record.history.toList)).countP
        fun place => run.Named record options.phases (stepOf place)) := by
  have hall := Except.ok.inj (h.symm.trans (selectedSteps_of_steps_eq_none hsteps))
  have hmem : ∀ k, run.Named record options.phases k → k ∈ steps := by
    intro k hnamed
    rw [hall, mem_phaseSteps hne hphases]
    refine ⟨?_, hnamed⟩
    obtain ⟨label, -, hsome, heq⟩ := hnamed
    rw [← heq, Record.phaseOf?] at hsome
    exact (Array.getElem?_eq_some_iff.1 (Option.eq_some_of_isSome hsome)).1
  obtain ⟨place, -, hplace⟩ := List.countP_pos_iff.1 hpos
  have hstep := hmem _ (of_decide_eq_true hplace)
  have hlt := pairwise_lt_of_selectedSteps h
  rw [countSeries_eq_map hcumulative hne hphases h, List.getLast?_map]
  clear h hall
  rcases List.eq_nil_or_concat steps with rfl | ⟨before, last, rfl⟩
  · cases hstep
  rw [List.concat_eq_append] at hlt hmem ⊢
  rw [List.getLast?_concat, Option.map_some]
  refine congrArg some (List.countP_congr fun place _ => ?_)
  -- every occurrence in the named phases starts at a selected step, and so not after the last one
  have hle : run.Named record options.phases (stepOf place) → stepOf place ≤ last := by
    intro hnamed
    rcases List.mem_append.1 (hmem _ hnamed) with hbefore | hlast
    · exact Nat.le_of_lt ((List.pairwise_append.1 hlt).2.2 _ hbefore last List.mem_cons_self)
    · exact Nat.le_of_eq (List.mem_singleton.1 hlast)
  simpa [hsteps] using hle

/-- The name of an element asks for the element. -/
theorem Pattern.resolve_name {vocabulary : Vocabulary} {name : String} {e : ElementId}
    (h : vocabulary.element? name = some e) :
    Pattern.resolve vocabulary (.name name) = .ok [.elements [e]] := by
  rw [resolve, memberItem, nameItem, h]
  · rfl
  · intro items he
    cases he

/-! ## Agreement -/

/-- The occurrences of an element in the record of a subject that start in a phase which ends with
this element are as many as its end condition asks for. -/
theorem Run.countP_occurrences_of_simulate {run : Run} {phases : List Phase}
    (hcompiled : ∀ phase ∈ phases, ∃ (text : PhaseText) (vocabulary : Vocabulary),
      text.compile vocabulary = .ok phase)
    (hworld : World.ofPhases phases = .ok run.world) {budget : Nat} {g g' : Generator}
    {result : RunRecord} (hsimulate : run.simulate budget g = .ok (result, g')) {record : Record}
    (hrecord : record ∈ result.subjects) {j : Nat} {phase : Phase}
    (hphase : run.world.phases[j]? = some phase) {e : ElementId}
    (hkey : phase.ending.key = .element e)
    (honce : ∀ line ∈ phase.lines, line.stimulus.elements.count e ≤ 1) :
    ((occurrences false [.elements [e]] (tokens record.history.toList)).countP fun place =>
        record.phaseOf? (stepOf place) = some j) = phase.ending.threshold := by
  obtain ⟨seed, -, after, hsubject⟩ :=
    exists_of_mem_forall₂ (forall₂_subjects_of_simulate hsimulate) hrecord
  -- the last call of the subject finds nothing more, and so exhausts every phase
  obtain ⟨calls, last, hover, hshows⟩ := shows_of_subject hsubject
  have hkeyOnce : phase.ShowsKeyOnce := by
    rw [Phase.ShowsKeyOnce, hkey]
    exact honce
  have hcounted := World.countP_of_exhausts hcompiled hworld calls (.inr hover) hphase hkeyOnce
  simp only [hkey, EndKey.occursIn] at hcounted
  exact (hshows.countP_occurrences e j).trans hcounted

namespace Experiment

/-- A query for an element, restricted to a phase that ends with this element, ends with the number
that the end condition asks for. -/
theorem getLast?_evaluate_n {run : Run} {phases : List Phase}
    (hcompiled : ∀ phase ∈ phases, ∃ (text : PhaseText) (vocabulary : Vocabulary),
      text.compile vocabulary = .ok phase)
    (hworld : World.ofPhases phases = .ok run.world) {budget : Nat} {g g' : Generator}
    {result : RunRecord} (hsimulate : run.simulate budget g = .ok (result, g'))
    (hnodup : result.phaseLabels.Nodup) {j : Nat} {phase : Phase}
    (hphase : run.world.phases[j]? = some phase) {e : ElementId}
    (hkey : phase.ending.key = .element e)
    (honce : ∀ line ∈ phase.lines, line.stimulus.elements.count e ≤ 1) {experiment : Experiment}
    {options : Options} (hselect : experiment.selectRun options = .ok result) {i : Nat}
    (hselection : options.selection = .index i) {record : Record}
    (hrecord : result.subjects[i]? = some record)
    (hphases : options.phases = [phase.label]) (hsteps : options.steps = none)
    (hcumulative : options.cumulative = true) (hexact : options.exactN = false) {name : String}
    (hname : run.mechanism.vocabulary.element? name = some e) :
    ∃ values, experiment.evaluate (.n (.name name) none) options = .ok (.series values) ∧
      values.getLast? = some phase.ending.threshold.toFloat := by
  have hresult := Run.eq_toRecord_of_simulate hsimulate
  have hlabel : result.phase? phase.label = some j := by
    refine result.phase?_of_nodup hnodup ?_
    rw [hresult]
    simp [Run.toRecord, hphase]
  have hitems : Pattern.resolve result.vocabulary (.name name) = .ok [.elements [e]] := by
    rw [hresult]
    exact Pattern.resolve_name hname
  have hnamed (step : Nat) :
      result.Named record options.phases step ↔ record.phaseOf? step = some j := by
    simp [RunRecord.Named, hphases, hlabel]
  have hnames : ∀ label ∈ options.phases, (result.phase? label).isSome := by
    simp [hphases, hlabel]
  have hcount : ((occurrences options.exactN [.elements [e]]
      (tokens record.history.toList)).countP fun place =>
        result.Named record options.phases (stepOf place)) = phase.ending.threshold := by
    simp only [hexact, hnamed]
    exact Run.countP_occurrences_of_simulate hcompiled hworld hsimulate
      (List.mem_of_getElem? hrecord) hphase hkey honce
  have hthreshold : 0 < phase.ending.threshold := by
    have hmem := List.mem_of_getElem? hphase
    rw [(World.ofPhases_eq_ok hworld).1] at hmem
    exact PhaseText.threshold_pos_of_compiled hcompiled phase hmem
  have hselected : selectedSteps result record options =
      .ok (phaseSteps result record options.phases) := selectedSteps_of_steps_eq_none hsteps
  refine ⟨_, evaluate_n hselect hselection hrecord hnames hitems hselected, ?_⟩
  rw [List.getLast?_map, getLast?_countSeries hcumulative hsteps (by simp [hphases]) hnames
    hselected (by rw [hcount]; exact hthreshold), hcount]
  rfl

/-- The unconditioned stimulus is shown twice in the first phase of the second run of `twoPhases`, and
then once in the second phase, which asks for one. -/
theorem getLast?_evaluate_n_twoPhases :
    let options : Options :=
      { Options.default with selection := .index 0, phases := ["again"] }
    ∃ result g' record values, Script.twoPhaseRun.simulate 7 ⟨1⟩ = .ok (result, g') ∧
      result.phaseLabels = ["pairing", "again"] ∧ result.subjects[0]? = some record ∧
      record.history.toList.map HistoryEntry.stimulus =
        [⟨[0]⟩, ⟨[1]⟩, ⟨[0]⟩, ⟨[1]⟩, ⟨[0]⟩, ⟨[1]⟩] ∧
      (empty.put "both" result).evaluate (.n (.name "us") none) options = .ok (.series values) ∧
      values.getLast? = some (Nat.toFloat 1) := by
  intro options
  have hseen : ((Script.twoPhaseRun.simulate 7 ⟨1⟩).toOption.any fun x =>
      x.1.subjects[0]?.any fun record =>
        x.1.phaseLabels = ["pairing", "again"] ∧
          record.history.toList.map HistoryEntry.stimulus =
            [⟨[0]⟩, ⟨[1]⟩, ⟨[0]⟩, ⟨[1]⟩, ⟨[0]⟩, ⟨[1]⟩]) = true := by decide +kernel
  obtain ⟨⟨result, g'⟩, hsimulate, hseen⟩ := (Option.any_eq_true _ _).1 hseen
  obtain ⟨record, hrecord, hseen⟩ := (Option.any_eq_true _ _).1 hseen
  obtain ⟨hlabels, hstimuli⟩ := of_decide_eq_true hseen
  have hok := eq_ok_of_toOption_eq_some hsimulate
  have hcompiled : ∀ phase ∈ Script.twoPhaseWorld.phases,
      ∃ (text : PhaseText) (vocabulary : Vocabulary), text.compile vocabulary = .ok phase := by
    intro phase hphase
    rcases List.mem_pair.1 hphase with rfl | rfl
    · exact ⟨PhaseText.pairing, _, PhaseText.compile_pairingRows rfl⟩
    · exact ⟨⟨"again", "us=1", PhaseText.pairing.rows⟩, _, PhaseText.compile_pairingRows rfl⟩
  have hnodup : result.phaseLabels.Nodup := by
    rw [hlabels]
    decide
  have honce : ∀ line ∈ Script.twoPhaseWorld.phases[1].lines,
      line.stimulus.elements.count 1 ≤ 1 := by
    intro line hline
    rcases List.mem_pair.1 hline with rfl | rfl <;> decide
  have hphase : Script.twoPhaseWorld.phases[1]? = some Script.twoPhaseWorld.phases[1] := rfl
  have hselect : (empty.put "both" result).selectRun options = .ok result := rfl
  have hname : Script.twoPhaseRun.mechanism.vocabulary.element? "us" = some 1 := rfl
  obtain ⟨values, hvalues, hlast⟩ := getLast?_evaluate_n hcompiled rfl hok hnodup hphase rfl honce
    hselect rfl hrecord rfl rfl rfl rfl hname
  exact ⟨result, g', record, values, hok, hlabels, hrecord, hstimuli, hvalues, hlast⟩

end Experiment

end Conditioning
