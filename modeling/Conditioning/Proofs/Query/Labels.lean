import Conditioning.Proofs.Query.Selection

/-!
# Labels that phases share

A run may go through one phase several times, and all of these phases have one
label.  A query names phases by their labels, and a label is looked up among the
phases of the run: it stands for the first phase that has it.  So the selected
steps are those of the phases whose labels are named, except for the phases that
come later than another phase of the same label (`exists_selectedSteps_exact`).

As long as the labels differ there are no such phases.  A run that repeats a phase
has them, and none of their steps can be selected by a label
(`not_selectedSteps_exact`).
-/

namespace Conditioning

/-! ## Named phases -/

namespace RunRecord

variable {run : RunRecord} {record : Record} {labels : List String}

/-- Whether a step belongs to a phase that has a named label. -/
def HasNamedLabel (run : RunRecord) (record : Record) (labels : List String) (step : Nat) : Prop :=
  ∃ label ∈ labels, run.labelOf? record step = some label

/-- Whether a step belongs to a phase that has a named label and no phase before it has. -/
def IsFirstNamed (run : RunRecord) (record : Record) (labels : List String) (step : Nat) : Prop :=
  ∃ phase label, record.phaseOf? step = some phase ∧ run.phaseLabels[phase]? = some label ∧
    label ∈ labels ∧ label ∉ run.phaseLabels.take phase

/-- A label stands for the first phase that has it. -/
theorem phase?_eq_some_iff {label : String} {phase : Nat} :
    run.phase? label = some phase ↔
      run.phaseLabels[phase]? = some label ∧ label ∉ run.phaseLabels.take phase := by
  rw [phase?, List.idxOf?_eq_some_iff]
  constructor
  · rintro ⟨hlt, he, hfirst⟩
    refine ⟨List.getElem?_eq_some_iff.2 ⟨hlt, he⟩, fun hmem => ?_⟩
    obtain ⟨j, hj, hlabel⟩ := List.mem_take_iff_getElem.1 hmem
    exact hfirst j (by omega) hlabel
  · rintro ⟨hlabel, hnew⟩
    obtain ⟨hlt, he⟩ := List.getElem?_eq_some_iff.1 hlabel
    refine ⟨hlt, he, fun j hj hsame => hnew ?_⟩
    exact List.mem_take_iff_getElem.2 ⟨j, by omega, hsame⟩

theorem named_iff_isFirstNamed {step : Nat} :
    run.Named record labels step ↔ run.IsFirstNamed record labels step := by
  constructor
  · rintro ⟨label, hmem, hsome, hphase⟩
    obtain ⟨phase, hlabel⟩ := Option.isSome_iff_exists.1 hsome
    obtain ⟨hhas, hnew⟩ := phase?_eq_some_iff.1 hlabel
    exact ⟨phase, label, hphase.trans hlabel, hhas, hmem, hnew⟩
  · rintro ⟨phase, label, hphase, hhas, hmem, hnew⟩
    have hlabel := phase?_eq_some_iff.2 ⟨hhas, hnew⟩
    exact ⟨label, hmem, by rw [hlabel]; rfl, hphase.trans hlabel.symm⟩

theorem hasNamedLabel_iff {step : Nat} :
    run.HasNamedLabel record labels step ↔ ∃ phase label, record.phaseOf? step = some phase ∧
      run.phaseLabels[phase]? = some label ∧ label ∈ labels := by
  simp only [HasNamedLabel, labelOf?, Option.bind_eq_some_iff]
  constructor
  · rintro ⟨label, hmem, phase, hphase, hlabel⟩
    exact ⟨phase, label, hphase, hlabel, hmem⟩
  · rintro ⟨phase, label, hphase, hlabel, hmem⟩
    exact ⟨label, hmem, phase, hphase, hlabel⟩

/-- If the labels differ, every phase is the first one with its label. -/
theorem isFirstNamed_iff (hnodup : run.phaseLabels.Nodup) {step : Nat} :
    run.IsFirstNamed record labels step ↔ run.HasNamedLabel record labels step := by
  rw [hasNamedLabel_iff]
  refine exists_congr fun phase => exists_congr fun label => and_congr_right fun _ => ?_
  refine and_congr_right fun hlabel => and_iff_left ?_
  exact (phase?_eq_some_iff.1 (run.phase?_of_nodup hnodup hlabel)).2

end RunRecord

/-! ## A run that repeats a phase -/

namespace Script

/-- What follows the pairings in `pairingsRepeated`. -/
def repeatedRunBlock : String :=
  "@run \x7b'label': 'twice', 'phases': ['pairing', 'pairing']\x7d"

/-- The script of the pairings, and a run that goes through their phase twice. -/
def pairingsRepeated : String := pairings ++ "\n" ++ repeatedRunBlock

/-- The run that goes through the phase of the pairings twice. -/
def repeatedRun : Run := { pairingRun with
  label := "twice", world := ⟨Run.pairings.world.phases ++ Run.pairings.world.phases⟩ }

/-- The draft that the blocks of `pairingsRepeated` lead to. -/
def repeatedDraft : Draft := { pairingDraft with script := { pairingDraft.script with
  runs := [pairingRun, repeatedRun] } }

open Literal in
theorem parse_pairingsRepeated : Script.parse pairingsRepeated = .ok repeatedDraft.script := by
  have hlines : cleanLines repeatedRunBlock.toList = [repeatedRunBlock.toList] := by
    decide +kernel
  have hblocks : blocksOf (cleanLines repeatedRunBlock.toList) =
      .ok [⟨.run, some "\x7b'label': 'twice', 'phases': ['pairing', 'pairing']\x7d", []⟩] := by
    rw [hlines]
    exact blocksOf_cons rfl rfl blocksOf_nil
  have hread : Reads "\x7b'label': 'twice', 'phases': ['pairing', 'pairing']\x7d".toList
      (.dict [(.str "label", .str "twice"),
        (.str "phases", .list [.str "pairing", .str "pairing"])]) [] :=
    .dict rfl
      (.more rfl
        (.quoted "label" ": 'twice', 'phases': ['pairing', 'pairing']\x7d".toList rfl (.inl rfl) rfl)
        rfl rfl
        (.quoted "twice" ", 'phases': ['pairing', 'pairing']\x7d".toList rfl (.inl rfl) rfl) rfl
        (.last rfl (.quoted "phases" ": ['pairing', 'pairing']\x7d".toList rfl (.inl rfl) rfl) rfl
          rfl
          (.list rfl (.more rfl (.quoted "pairing" ", 'pairing']\x7d".toList rfl (.inl rfl) rfl) rfl
            (.last rfl (.quoted "pairing" "]\x7d".toList rfl (.inl rfl) rfl) rfl rfl)))
          rfl rfl))
  have hcompiled : ([PhaseText.pairing, PhaseText.pairing].mapM fun text =>
      text.compile PhaseText.trialVocabulary) = .ok repeatedRun.world.phases :=
    mapM_eq_ok.2 (.cons (PhaseText.compile_pairingRows rfl)
      (.cons (PhaseText.compile_pairingRows rfl) .nil))
  refine parse_pairings_newline ⟨_, _, hlines, rfl⟩ hblocks ?_
  rw [List.foldlM_cons]
  refine bind_eq_ok.2 ⟨_, Draft.addBlock_run hread rfl rfl (by decide) ?_, rfl⟩
  exact buildRun_pairingParameters rfl rfl rfl hcompiled rfl

end Script

/-! ## Selected steps -/

/-- Whether an occurrence of the pattern for the steps starts at a step, if there is a pattern. -/
def Options.SamplesAt (options : Options) (vocabulary : Vocabulary) (record : Record)
    (step : Nat) : Prop :=
  ∀ pattern ∈ options.steps, ∃ items, pattern.resolve vocabulary = .ok items ∧
    step ∈ occurrenceSteps options.exactSteps items (tokens record.history.toList)

section

variable {run : RunRecord} {record : Record} {options : Options}

theorem mem_selectedSteps {steps : List Nat} (h : selectedSteps run record options = .ok steps)
    {k : Nat} :
    k ∈ steps ↔
      k ∈ phaseSteps run record options.phases ∧ options.SamplesAt run.vocabulary record k := by
  unfold selectedSteps at h
  simp only at h
  split at h
  next hnone =>
    cases h
    simp [Options.SamplesAt, hnone]
  next pattern hpattern =>
    obtain ⟨items, hitems, h⟩ := bind_eq_ok.1 h
    cases h
    rw [List.mem_filter]
    refine and_congr_right fun hk => ?_
    have hlt : k < record.stepCount := List.mem_range.1 ((phaseSteps_sublist _).subset hk)
    simp [Options.SamplesAt, hpattern, hitems, getD_stepCounts hlt, List.count_pos_iff]

/-- The selected steps, in increasing order, are the steps of the phases that are the first ones with
a named label, or all steps if no phase is named, at which an occurrence of the pattern for the
steps starts, if there is one.  If the labels of the phases differ, these are all the phases that
are named. -/
theorem exists_selectedSteps_exact (record : Record)
    (hphases : Query.checkPhases run options.phases = .ok ())
    (hsteps : ∀ pattern ∈ options.steps, ∃ items, pattern.resolve run.vocabulary = .ok items) :
    ∃ steps, selectedSteps run record options = .ok steps ∧ steps.Pairwise (· < ·) ∧
      (∀ k, k ∈ steps ↔ k < record.stepCount ∧
        (options.phases = [] ∨ run.IsFirstNamed record options.phases k) ∧
        options.SamplesAt run.vocabulary record k) ∧
      (run.phaseLabels.Nodup → ∀ k,
        run.IsFirstNamed record options.phases k ↔
          run.HasNamedLabel record options.phases k) := by
  obtain ⟨steps, hselected⟩ := exists_selectedSteps record hsteps
  refine ⟨steps, hselected, pairwise_lt_of_selectedSteps hselected, ?_, ?_⟩
  · intro k
    rw [mem_selectedSteps hselected, ← and_assoc]
    refine and_congr_left' ?_
    by_cases hne : options.phases = []
    · simp [hne, phaseSteps_nil]
    · rw [mem_phaseSteps hne (Query.checkPhases_eq_ok.1 hphases), or_iff_right hne,
        RunRecord.named_iff_isFirstNamed]
  · intro hnodup k
    exact RunRecord.isFirstNamed_iff hnodup

end

/-- A query for the steps with the conditioned stimulus, of a phase that the run repeats. -/
def repeatedOptions : Options := { Options.default with
  runLabel := some "twice", selection := .index 0, phases := ["pairing"], steps := some (.name "cs") }

/-- The second run of `pairingsRepeated` shows the conditioned stimulus at four steps, two in each of
its phases, and the steps of the first phase are selected. -/
theorem exists_pairingsRepeated :
    ∃ experiment run record, Script.repeatedDraft.script.simulate 9 1 = .ok experiment ∧
      experiment.selectRun repeatedOptions = .ok run ∧ run.subjects[0]? = some record ∧
      Query.checkPhases run repeatedOptions.phases = .ok () ∧
      Pattern.resolve run.vocabulary (.name "cs") = .ok [.elements [0]] ∧
      run.phaseLabels = ["pairing", "pairing"] ∧
      record.phases = #[0, 0, 0, 0, 0, 1, 1, 1, 1] ∧
      selectedSteps run record repeatedOptions = .ok [1, 3] ∧
      occurrenceSteps false [.elements [0]] (tokens record.history.toList) = [1, 3, 5, 7] := by
  have hseen : ((Script.repeatedDraft.script.simulate 9 1).toOption.any fun experiment =>
      (experiment.selectRun repeatedOptions).toOption.any fun run =>
        run.subjects[0]?.any fun record =>
          run.vocabulary = PhaseText.trialVocabulary ∧ run.phaseLabels = ["pairing", "pairing"] ∧
            record.phases = #[0, 0, 0, 0, 0, 1, 1, 1, 1] ∧
            (selectedSteps run record repeatedOptions).toOption = some [1, 3] ∧
            occurrenceSteps false [.elements [0]] (tokens record.history.toList) =
              [1, 3, 5, 7]) = true := by decide +kernel
  obtain ⟨experiment, hexperiment, hseen⟩ := (Option.any_eq_true _ _).1 hseen
  obtain ⟨run, hrun, hseen⟩ := (Option.any_eq_true _ _).1 hseen
  obtain ⟨record, hrecord, hseen⟩ := (Option.any_eq_true _ _).1 hseen
  obtain ⟨hvocabulary, hlabels, hphases, hsteps, hoccurrences⟩ := of_decide_eq_true hseen
  refine ⟨experiment, run, record, eq_ok_of_toOption_eq_some hexperiment,
    eq_ok_of_toOption_eq_some hrun, hrecord, ?_, ?_, hlabels, hphases,
    eq_ok_of_toOption_eq_some hsteps, hoccurrences⟩
  · refine Query.checkPhases_eq_ok.2 fun label hlabel => ?_
    cases List.mem_singleton.1 hlabel
    rw [RunRecord.phase?, hlabels]
    decide
  · rw [hvocabulary]
    rfl

/-- In the run that repeats the phase of the pairings, the label of this phase selects steps of its
first time only. -/
theorem exists_selectedSteps_exact_pairingsRepeated :
    ∃ script experiment run record, Script.parse Script.pairingsRepeated = .ok script ∧
      script.simulate 9 1 = .ok experiment ∧ experiment.selectRun repeatedOptions = .ok run ∧
      run.subjects[0]? = some record ∧
      Query.checkPhases run repeatedOptions.phases = .ok () ∧
      Pattern.resolve run.vocabulary (.name "cs") = .ok [.elements [0]] ∧
      selectedSteps run record repeatedOptions = .ok [1, 3] ∧
      ∀ k, k ∈ [1, 3] ↔ k < record.stepCount ∧
        (repeatedOptions.phases = [] ∨ run.IsFirstNamed record repeatedOptions.phases k) ∧
        repeatedOptions.SamplesAt run.vocabulary record k := by
  obtain ⟨experiment, run, record, hexperiment, hrun, hrecord, hcheck, hitems, -, -, hselected, -⟩ :=
    exists_pairingsRepeated
  have hsample : ∀ pattern ∈ repeatedOptions.steps,
      ∃ items, pattern.resolve run.vocabulary = .ok items := by
    rintro _ ⟨⟩
    exact ⟨_, hitems⟩
  obtain ⟨steps, hsteps, -, hexact, -⟩ := exists_selectedSteps_exact record hcheck hsample
  cases hselected.symm.trans hsteps
  exact ⟨_, experiment, run, record, Script.parse_pairingsRepeated, hexperiment, hrun, hrecord,
    hcheck, hitems, hselected, hexact⟩

/-- Not all steps of named phases are selected: the label of the phase that `pairingsRepeated` repeats
leaves out the step at which the conditioned stimulus is shown in the second of these phases. -/
theorem not_selectedSteps_exact :
    ¬∀ (text : String) (script : Script) (budget : Nat) (seed : UInt64) (experiment : Experiment)
        (options : Options) (run : RunRecord) (i : Nat) (record : Record) (steps : List Nat),
      Script.parse text = .ok script → script.simulate budget seed = .ok experiment →
      experiment.selectRun options = .ok run → run.subjects[i]? = some record →
      Query.checkPhases run options.phases = .ok () →
      selectedSteps run record options = .ok steps →
        ∀ k, k ∈ steps ↔ k < record.stepCount ∧
          (options.phases = [] ∨ run.HasNamedLabel record options.phases k) ∧
          options.SamplesAt run.vocabulary record k := by
  intro h
  obtain ⟨experiment, run, record, hexperiment, hrun, hrecord, hcheck, hitems, hlabels, hphases,
    hselected, hoccurrences⟩ := exists_pairingsRepeated
  have hclaimed := h _ _ 9 1 experiment repeatedOptions run 0 record _ Script.parse_pairingsRepeated
    hexperiment hrun hrecord hcheck hselected 5
  have hlt : 5 < record.stepCount := by
    rw [Record.stepCount, hphases]
    decide
  have hnamed : run.HasNamedLabel record repeatedOptions.phases 5 := by
    refine ⟨"pairing", List.mem_singleton.2 rfl, ?_⟩
    rw [RunRecord.labelOf?, Record.phaseOf?, hphases, hlabels]
    rfl
  have hsamples : repeatedOptions.SamplesAt run.vocabulary record 5 := by
    rintro _ ⟨⟩
    refine ⟨_, hitems, ?_⟩
    have hexact : repeatedOptions.exactSteps = false := rfl
    rw [hexact, hoccurrences]
    decide
  have hmem := hclaimed.2 ⟨hlt, .inr hnamed, hsamples⟩
  revert hmem
  decide

end Conditioning
