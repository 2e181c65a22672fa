import Conditioning.Proofs.Checked.Query
import Conditioning.Proofs.Script.InRange

/-!
# Queries that are in range

The record of a subject that a run of a script has simulated is complete: it fits the
vocabulary since every step of the session does, it has a step for every entry of its
history, and every salience that is kept is noted from the start on
(`Run.WellFormed.complete_of_simulate`).  So a query of such a record uses no number
that is out of range, whatever is asked and whichever steps are selected
(`Script.evaluate_in_range`).
-/

namespace Conditioning

/-! ## Records of subjects -/

namespace Run.WellFormed

variable {run : Run} {budget : Nat} {seed : UInt64} {record : Record} {after : Apparatus}

theorem fits_of_subject (h : run.WellFormed)
    (hsubject : run.subject budget run.setUp seed = .ok (record, after)) :
    record.Fits run.mechanism.vocabulary := by
  obtain ⟨-, hfits⟩ := h.proceed?_eq (h.begin?_eq seed).2 budget
  unfold subject at hsubject
  split at hsubject
  next => cases hsubject
  next final hfinal =>
    cases hsubject
    obtain ⟨-, hlearner, -, hrecord⟩ := hfits final hfinal
    obtain ⟨-, hnoted⟩ := hrecord.noteAll? final.steps hlearner
    exact ⟨hnoted.v, hnoted.w⟩

theorem complete_of_subject (h : run.WellFormed)
    (hsubject : run.subject budget run.setUp seed = .ok (record, after)) (records : List Record) :
    record.Complete (run.toRecord records) := by
  obtain ⟨n, hlast, -, htells⟩ := tells_of_subject hsubject
  obtain ⟨hsize, -⟩ := history_of_subject hsubject
  have hn : n = record.history.size := Option.some.inj (hlast.symm.trans hsize)
  refine ⟨h.fits_of_subject hsubject, hn ▸ htells.stepCount_eq, ?_⟩
  intro hsalience element helement
  rw [htells.length_seriesW hsalience helement, htells.stepCount_eq]

theorem complete_of_simulate (h : run.WellFormed) {g g' : Generator} {result : RunRecord}
    (hsimulate : run.simulate budget g = .ok (result, g')) : result.Complete := by
  rw [simulate_eq] at hsimulate
  obtain ⟨records, hrecords, he⟩ := map_eq_ok.1 hsimulate
  cases he
  refine ⟨fun element helement => h.config.feasibleFor?_eq helement,
    fun elements behavior hbehavior => h.config.declares.lt_of_mem hbehavior, ?_⟩
  intro record hrecord
  obtain ⟨seed, -, halone⟩ := exists_of_mem_mapM hrecords hrecord
  obtain ⟨⟨record, after⟩, hsubject, rfl⟩ := map_eq_ok.1 halone
  exact h.complete_of_subject hsubject records

end Run.WellFormed

/-! ## Records of scripts -/

namespace Script

theorem complete_of_simulate {text : String} {script : Script} (h : Script.parse text = .ok script)
    {budget : Nat} {seed : UInt64} {experiment : Experiment}
    (hsimulate : script.simulate budget seed = .ok experiment) :
    ∀ labelled ∈ experiment.runs, labelled.2.Complete := by
  intro labelled hlabelled
  obtain ⟨run, hrun, -, g, g', hresult⟩ := exists_of_mem_forall₂
    (forall₂_of_simulate (nodup_labels_of_parse h) hsimulate) hlabelled
  exact (wellFormed_of_parse h run hrun).complete_of_simulate hresult

/-- A query of the records of a script uses no number that is out of range, however it is asked. -/
theorem evaluate_in_range {text : String} {script : Script} (h : Script.parse text = .ok script)
    {budget : Nat} {seed : UInt64} {experiment : Experiment}
    (hsimulate : script.simulate budget seed = .ok experiment) {expression : Expression}
    (hexpression : (∃ quantity value, Expression.ofLiteral quantity value = .ok expression) ∨
      ∃ pattern reference, Expression.countOf pattern reference = .ok expression)
    {dict : Dict} {options : Options} (hoptions : Options.ofDict dict = .ok options) :
    experiment.evaluate? expression options = some (experiment.evaluate expression options) := by
  have hproper : expression.Proper := by
    rcases hexpression with ⟨quantity, value, hvalue⟩ | ⟨pattern, reference, hcount⟩
    · exact Expression.proper_of_ofLiteral hvalue
    · exact Expression.proper_of_countOf hcount
  exact Experiment.evaluate?_eq (complete_of_simulate h hsimulate) hproper
    (Options.proper_of_ofDict hoptions)

/-- The only subject of the pairings, at the steps with the conditioned stimulus. -/
def pairingOptions : Options := { Options.default with
  selection := .index 0, phases := ["pairing"], steps := some (.name "cs") }

/-- The pairings have two steps with the conditioned stimulus, and it can be asked how often a press
and then the unconditioned stimulus follow it. -/
theorem evaluate_in_range_pairings :
    ∃ script experiment expression values, Script.parse pairings = .ok script ∧
      script.simulate 5 1 = .ok experiment ∧
      Expression.countOf (.list [.str "cs", .str "press", .str "us"]) none = .ok expression ∧
      Options.ofDict ⟨[(.str "phase", .str "pairing"), (.str "steps", .str "cs"),
        (.str "subject", .int 0)]⟩ = .ok pairingOptions ∧
      experiment.evaluate? expression pairingOptions = some (.ok (.series values)) ∧
      values.length = 2 := by
  have hseen : ((pairingDraft.script.simulate 5 1).toOption.any fun experiment =>
      (experiment.selectRun pairingOptions).toOption.any fun run =>
        run.subjects[0]?.any fun record =>
          run.vocabulary = PhaseText.trialVocabulary ∧ run.phaseLabels = ["pairing"] ∧
            (selectedSteps run record pairingOptions).toOption = some [1, 3]) = true := by
    decide +kernel
  obtain ⟨experiment, hexperiment, hseen⟩ := (Option.any_eq_true _ _).1 hseen
  obtain ⟨run, hrun, hseen⟩ := (Option.any_eq_true _ _).1 hseen
  obtain ⟨record, hrecord, hseen⟩ := (Option.any_eq_true _ _).1 hseen
  obtain ⟨hvocabulary, hlabels, hsteps⟩ := of_decide_eq_true hseen
  have hsimulate := eq_ok_of_toOption_eq_some hexperiment
  have hcount : Expression.countOf (.list [.str "cs", .str "press", .str "us"]) none =
      .ok (.n (.sequence [.name "cs", .name "press", .name "us"]) none) := rfl
  have hoptions : Options.ofDict ⟨[(.str "phase", .str "pairing"), (.str "steps", .str "cs"),
      (.str "subject", .int 0)]⟩ = .ok pairingOptions := rfl
  have hphases : ∀ label ∈ pairingOptions.phases, (run.phase? label).isSome := by
    intro label hlabel
    cases List.mem_singleton.1 hlabel
    rw [RunRecord.phase?, hlabels]
    decide
  have hitems : Pattern.resolve run.vocabulary (.sequence [.name "cs", .name "press", .name "us"]) =
      .ok [.elements [0], .behavior 1, .elements [1]] := by
    rw [hvocabulary]
    rfl
  have hanswer := Experiment.evaluate_n (eq_ok_of_toOption_eq_some hrun) rfl hrecord hphases hitems
    (eq_ok_of_toOption_eq_some hsteps)
  have hchecked := evaluate_in_range parse_pairings hsimulate (.inr ⟨_, _, hcount⟩) hoptions
  refine ⟨_, experiment, _, _, parse_pairings, hsimulate, hcount, hoptions, hchecked.trans
    (congrArg some hanswer), ?_⟩
  rw [List.length_map, countSeries, length_accumulate]
  rfl

end Script

end Conditioning
