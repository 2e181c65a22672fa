import Conditioning.Proofs.Checked.Run
import Conditioning.Proofs.Script.Prefix

/-!
# Scripts that run in range

Every run of a script was built from its settings and phases, so its tables, its
lines and its counts are those of its vocabulary.  Simulating a script therefore
uses no number of a table, a line, an element or a behavior that is out of range,
and every response that it records is possible for one of the elements shown
(`Script.feasible_and_in_range`).
-/

namespace Conditioning

/-! ## Checked simulation -/

/-- Simulate runs in order, all from one generator. -/
def simulateAll? (budget : Nat) (experiment : Experiment) (g : Generator) :
    List Run → Option (Except Halt Experiment)
  | [] => some (.ok experiment)
  | run :: runs =>
    match run.simulate? budget g with
    | none => none
    | some (.error halt) => some (.error halt)
    | some (.ok (record, g)) => simulateAll? budget (experiment.put run.label record) g runs

/-- Simulate every run, each subject for as many steps as the budget allows. -/
def Script.simulate? (script : Script) (budget : Nat) (seed : UInt64) :
    Option (Except Halt Experiment) :=
  simulateAll? budget Experiment.empty (Generator.ofSeed seed) script.runs

theorem simulateAll?_eq {runs : List Run} (h : ∀ run ∈ runs, run.WellFormed) (budget : Nat)
    (experiment : Experiment) (g : Generator) :
    simulateAll? budget experiment g runs = some (simulateAll budget experiment g runs) := by
  induction runs generalizing experiment g with
  | nil => rfl
  | cons run runs ih =>
    obtain ⟨hrun, hruns⟩ := List.forall_mem_cons.1 h
    rw [simulateAll?, simulateAll, hrun.simulate?_eq]
    cases run.simulate budget g with
    | error halt => rfl
    | ok result => exact ih hruns _ _

/-! ## Records -/

theorem forall₂_of_simulateEach {budget : Nat} {g : Generator} {runs : List Run}
    {results : List RunRecord × Generator} (h : simulateEach budget g runs = .ok results) :
    List.Forall₂ (fun run record => ∃ g g', run.simulate budget g = .ok (record, g')) runs
      results.1 := by
  induction runs generalizing g results with
  | nil =>
    cases h
    exact .nil
  | cons run runs ih =>
    obtain ⟨record, rest, hrun, hrest, rfl⟩ := simulateEach_cons_eq_ok.1 h
    exact .cons ⟨g, _, hrun⟩ (ih hrest)

theorem forall₂_zip_labels {P : Run → RunRecord → Prop} {runs : List Run}
    {records : List RunRecord} (h : List.Forall₂ P runs records) :
    List.Forall₂ (fun run labelled => labelled.1 = run.label ∧ P run labelled.2) runs
      ((runs.map Run.label).zip records) := by
  induction h with
  | nil => exact .nil
  | cons hrun _ ih => exact .cons ⟨rfl, hrun⟩ ih

namespace Script

/-- The records of a script are those of its runs, in order and under their labels. -/
theorem forall₂_of_simulate {script : Script} (hnodup : (script.runs.map Run.label).Nodup)
    {budget : Nat} {seed : UInt64} {experiment : Experiment}
    (h : script.simulate budget seed = .ok experiment) :
    List.Forall₂ (fun run labelled => labelled.1 = run.label ∧
        ∃ g g', run.simulate budget g = .ok (labelled.2, g'))
      script.runs experiment.runs := by
  obtain ⟨results, hresults, -⟩ := map_eq_ok.1 ((simulateAll_eq ..).symm.trans h)
  obtain ⟨experiment', hsimulate, hrecords⟩ := runs_of_simulate hnodup hresults
  cases h.symm.trans hsimulate
  rw [hrecords]
  exact forall₂_zip_labels (forall₂_of_simulateEach hresults)

theorem wellFormed_of_parse {text : String} {script : Script}
    (h : Script.parse text = .ok script) : ∀ run ∈ script.runs, run.WellFormed := by
  intro run hrun
  obtain ⟨built, hbuilds⟩ := exists_builds_of_parse h hrun
  exact hbuilds.wellFormed

/-- Every recorded response is possible for one of the elements shown, and nothing is read or
written out of range. -/
theorem feasible_and_in_range {text : String} {script : Script}
    (h : Script.parse text = .ok script) (budget : Nat) (seed : UInt64) :
    (∀ experiment, script.simulate budget seed = .ok experiment →
      List.Forall₂ (fun run labelled => labelled.1 = run.label ∧
          ∀ subject ∈ labelled.2.subjects, ∀ entry ∈ subject.history,
            ∃ element ∈ entry.stimulus.elements,
              entry.response ∈ run.mechanism.config.response.feasibleFor element)
        script.runs experiment.runs) ∧
    script.simulate? budget seed = some (script.simulate budget seed) := by
  have hwell := wellFormed_of_parse h
  refine ⟨?_, simulateAll?_eq hwell budget Experiment.empty (Generator.ofSeed seed)⟩
  intro experiment hexperiment
  have hrecords := forall₂_of_simulate (nodup_labels_of_parse h) hexperiment
  refine ((List.forall₂_and_left _ _).2 ⟨hwell, hrecords⟩).imp ?_
  rintro run labelled ⟨hrun, hlabel, g, g', hsimulate⟩
  exact ⟨hlabel, fun subject hsubject entry hentry =>
    hrun.feasible_of_simulate hsimulate hsubject hentry⟩

/-- The subject of the pairings responds four times, and to the unconditioned stimulus, for which a
press is not possible, it waits. -/
theorem feasible_and_in_range_pairings :
    ∃ script record subject, Script.parse pairings = .ok script ∧
      script.simulate? 5 1 = some (.ok ⟨[("pairings", record)]⟩) ∧ record.subjects = [subject] ∧
      subject.history.toList.map HistoryEntry.stimulus = [⟨[0]⟩, ⟨[1]⟩, ⟨[0]⟩, ⟨[1]⟩] ∧
      ∀ entry ∈ subject.history, entry.stimulus = ⟨[1]⟩ → entry.response = 0 := by
  have hstimuli : ((pairingDraft.script.simulate 5 1).toOption.map fun experiment =>
      experiment.runs.map fun labelled => labelled.2.subjects.map fun subject =>
        subject.history.toList.map HistoryEntry.stimulus) =
      some [[[⟨[0]⟩, ⟨[1]⟩, ⟨[0]⟩, ⟨[1]⟩]]] := by decide +kernel
  obtain ⟨⟨runs⟩, hexperiment, hruns⟩ := Option.map_eq_some_iff.1 hstimuli
  have hok := eq_ok_of_toOption_eq_some hexperiment
  obtain ⟨hfeasible, hchecked⟩ := feasible_and_in_range parse_pairings 5 1
  obtain ⟨⟨label, record⟩, rfl, hone⟩ := List.map_eq_singleton_iff.1 hruns
  obtain ⟨subject, hsubject, hhistory⟩ := List.map_eq_singleton_iff.1 hone
  obtain ⟨⟨rfl, hentries⟩, -⟩ := List.forall₂_cons.1 (hfeasible _ hok)
  refine ⟨_, record, subject, parse_pairings, hchecked.trans (congrArg some hok), hsubject,
    hhistory, ?_⟩
  intro entry hentry hstimulus
  obtain ⟨element, helement, hresponse⟩ := hentries subject (hsubject ▸ List.mem_singleton_self _)
    entry hentry
  rw [hstimulus] at helement
  cases List.mem_singleton.1 helement
  exact List.mem_singleton.1 hresponse

end Script

end Conditioning
