import Conditioning.Proofs.Run.Subjects
import Mathlib.Data.List.Nodup

/-!
# Runs one after the other

The runs of a script draw from one generator.  Each of them takes the seeds of
its subjects from it and nothing else, so the generator after some runs depends
on their numbers of subjects alone (`simulateEach_eq_ok`), however many steps the
subjects took and however often they drew from their own streams.  Each run
therefore gives the same record whatever the other runs are, as long as they have
as many subjects (`Run.undisturbed`).

A budget only bounds a run.  Two budgets that are both enough give the same
record (`Run.simulate_unique`).
-/

namespace Conditioning

/-! ## Budgets -/

namespace Run

variable {run : Run}

theorem proceed_unique {session final final' : Session} {budget budget' : Nat}
    (h : run.proceed session budget = .ok final) (h' : run.proceed session budget' = .ok final') :
    final = final' := by
  induction budget generalizing session budget' with
  | zero => cases h
  | succ budget ih =>
    cases budget' with
    | zero => cases h'
    | succ budget' =>
      rw [proceed] at h h'
      cases hstep : run.step session with
      | error error =>
        rw [hstep] at h
        cases h
      | ok progress =>
        rw [hstep] at h h'
        cases progress with
        | finished last =>
          cases h
          cases h'
          rfl
        | ongoing later => exact ih h h'

theorem alone_unique {apparatus : Apparatus} {seed : UInt64} {record record' : Record}
    {budget budget' : Nat} (h : run.alone budget apparatus seed = .ok record)
    (h' : run.alone budget' apparatus seed = .ok record') : record = record' := by
  obtain ⟨⟨_, after⟩, hsubject, rfl⟩ := map_eq_ok.1 h
  obtain ⟨⟨_, after'⟩, hsubject', rfl⟩ := map_eq_ok.1 h'
  unfold subject at hsubject hsubject'
  split at hsubject
  next => cases hsubject
  next final hfinal =>
    split at hsubject'
    next => cases hsubject'
    next final' hfinal' =>
      cases hsubject
      cases hsubject'
      rw [proceed_unique hfinal hfinal']

/-- Budgets that are enough give one result. -/
theorem simulate_unique {g : Generator} {result result' : RunRecord × Generator}
    {budget budget' : Nat} (h : run.simulate budget g = .ok result)
    (h' : run.simulate budget' g = .ok result') : result = result' := by
  rw [simulate_eq] at h h'
  obtain ⟨records, hrecords, rfl⟩ := map_eq_ok.1 h
  obtain ⟨records', hrecords', rfl⟩ := map_eq_ok.1 h'
  have hunique : Relator.RightUnique fun seed record =>
      ∃ budget, run.alone budget run.setUp seed = .ok record := by
    rintro seed record record' ⟨budget, hrecord⟩ ⟨budget', hrecord'⟩
    exact alone_unique hrecord hrecord'
  have hsame : records = records' :=
    List.right_unique_forall₂' hunique
      ((mapM_eq_ok.1 hrecords).imp fun _ _ hrecord => ⟨budget, hrecord⟩)
      ((mapM_eq_ok.1 hrecords').imp fun _ _ hrecord => ⟨budget', hrecord⟩)
  rw [hsame]

/-- A run leaves the generator after the seeds of its subjects. -/
theorem generator_of_simulate {budget : Nat} {g g' : Generator} {record : RunRecord}
    (h : run.simulate budget g = .ok (record, g')) : g' = (g.splits run.subjects).2 := by
  rw [simulate_eq] at h
  obtain ⟨records, -, he⟩ := map_eq_ok.1 h
  cases he
  rfl

end Run

/-! ## Records in order -/

/-- The records of runs in order, and the generator after them. -/
def simulateEach (budget : Nat) (g : Generator) :
    List Run → Except Halt (List RunRecord × Generator)
  | [] => .ok ([], g)
  | run :: runs =>
    match run.simulate budget g with
    | .error halt => .error halt
    | .ok (record, g) => (simulateEach budget g runs).map fun rest => (record :: rest.1, rest.2)

/-- The generator after the seeds of some numbers of subjects were drawn. -/
def Generator.afterSubjects (g : Generator) (counts : List Nat) : Generator :=
  counts.foldl (fun g count => (g.splits count).2) g

section

variable {budget : Nat} {g : Generator} {runs : List Run} {results : List RunRecord × Generator}

theorem simulateEach_cons_eq_ok {run : Run} :
    simulateEach budget g (run :: runs) = .ok results ↔ ∃ record rest,
      run.simulate budget g = .ok (record, (g.splits run.subjects).2) ∧
      simulateEach budget (g.splits run.subjects).2 runs = .ok rest ∧
      results = (record :: rest.1, rest.2) := by
  rw [simulateEach]
  constructor
  · intro h
    split at h
    next => cases h
    next record g' hrun =>
      obtain ⟨rest, hrest, rfl⟩ := map_eq_ok.1 h
      obtain rfl := Run.generator_of_simulate hrun
      exact ⟨record, rest, hrun, hrest, rfl⟩
  · rintro ⟨record, rest, hrun, hrest, rfl⟩
    rw [hrun]
    exact map_eq_ok.2 ⟨rest, hrest, rfl⟩

/-- Each run starts from the generator that the numbers of subjects before it lead to. -/
theorem simulateEach_eq_ok (h : simulateEach budget g runs = .ok results) :
    results.2 = g.afterSubjects (runs.map Run.subjects) ∧
      results.1.length = runs.length ∧
      ∀ (j : Nat) (run : Run), runs[j]? = some run → ∃ record g', results.1[j]? = some record ∧
        run.simulate budget (g.afterSubjects ((runs.map Run.subjects).take j)) =
          .ok (record, g') := by
  induction runs generalizing g results with
  | nil =>
    cases h
    exact ⟨rfl, rfl, fun j run hrun => by cases hrun⟩
  | cons first runs ih =>
    obtain ⟨record, rest, hfirst, hrest, rfl⟩ := simulateEach_cons_eq_ok.1 h
    obtain ⟨hgenerator, hlength, hruns⟩ := ih hrest
    refine ⟨hgenerator, congrArg Nat.succ hlength, ?_⟩
    intro j run hrun
    cases j with
    | zero =>
      cases hrun
      exact ⟨record, _, rfl, hfirst⟩
    | succ j => exact hruns j run hrun

theorem length_of_simulateEach (h : simulateEach budget g runs = .ok results) :
    results.1.length = runs.length :=
  (simulateEach_eq_ok h).2.1

/-- The first runs do not depend on those that follow. -/
theorem simulateEach_append_eq_ok {more : List Run}
    (h : simulateEach budget g (runs ++ more) = .ok results) :
    ∃ first rest, simulateEach budget g runs = .ok first ∧
      simulateEach budget first.2 more = .ok rest ∧ results = (first.1 ++ rest.1, rest.2) := by
  induction runs generalizing g results with
  | nil => exact ⟨([], g), results, rfl, h, rfl⟩
  | cons run runs ih =>
    obtain ⟨record, others, hrun, hothers, rfl⟩ := simulateEach_cons_eq_ok.1 h
    obtain ⟨first, rest, hfirst, hrest, rfl⟩ := ih hothers
    exact ⟨_, rest, simulateEach_cons_eq_ok.2 ⟨record, first, hrun, hfirst, rfl⟩, hrest, rfl⟩

end

/-! ## Experiments -/

namespace Experiment

/-- Put runs under their labels, one after the other. -/
def putAll (experiment : Experiment) (entries : List (String × RunRecord)) : Experiment :=
  entries.foldl (fun experiment entry => experiment.put entry.1 entry.2) experiment

theorem get?_put (experiment : Experiment) (label name : String) (run : RunRecord) :
    (experiment.put label run).get? name =
      if label = name then some run else experiment.get? name := by
  obtain ⟨runs⟩ := experiment
  simp only [get?, put]
  induction runs with
  | nil => by_cases h : label = name <;> simp [putRun, h]
  | cons entry runs ih =>
    obtain ⟨other, old⟩ := entry
    by_cases hother : other = label
    · subst hother
      by_cases h : other = name <;> simp [putRun, h]
    · by_cases h : other = name
      · subst h
        simp [putRun, hother, Ne.symm hother]
      · simp only [putRun, hother, if_false, List.find?_cons, beq_eq_false_iff_ne.2 h]
        exact ih

theorem runs_put_of_not_mem {experiment : Experiment} {label : String} (run : RunRecord)
    (h : label ∉ experiment.labels) :
    (experiment.put label run).runs = experiment.runs ++ [(label, run)] := by
  obtain ⟨runs⟩ := experiment
  simp only [labels, put] at h ⊢
  induction runs with
  | nil => rfl
  | cons entry runs ih =>
    rw [List.map_cons, List.mem_cons, not_or] at h
    rw [putRun, if_neg (Ne.symm h.1), ih h.2]
    rfl

/-- Runs with labels of their own are put in order. -/
theorem runs_putAll {experiment : Experiment} {entries : List (String × RunRecord)}
    (hnodup : (experiment.labels ++ entries.map Prod.fst).Nodup) :
    (experiment.putAll entries).runs = experiment.runs ++ entries := by
  induction entries generalizing experiment with
  | nil => exact (List.append_nil _).symm
  | cons entry entries ih =>
    obtain ⟨label, run⟩ := entry
    have hfresh : label ∉ experiment.labels := fun hmem =>
      (List.nodup_append.1 hnodup).2.2 label hmem label List.mem_cons_self rfl
    have hput := runs_put_of_not_mem run hfresh
    have hlabels : (experiment.put label run).labels = experiment.labels ++ [label] := by
      rw [labels_put, if_neg hfresh]
    have hrest : ((experiment.put label run).labels ++ entries.map Prod.fst).Nodup := by
      rwa [hlabels, List.append_assoc]
    show ((experiment.put label run).putAll entries).runs = _
    rw [ih hrest, hput, List.append_assoc]
    rfl

/-- What is found under a name depends on the records put under it. -/
theorem get?_putAll_congr {labels : List String} {records records' : List RunRecord}
    {experiment experiment' : Experiment} {name : String}
    (h : ∀ (j : Nat), labels[j]? = some name → records[j]? = records'[j]?)
    (hlength : records.length = records'.length)
    (hget : experiment.get? name = experiment'.get? name) :
    (experiment.putAll (labels.zip records)).get? name =
      (experiment'.putAll (labels.zip records')).get? name := by
  induction labels generalizing records records' experiment experiment' with
  | nil => exact hget
  | cons label labels ih =>
    cases records with
    | nil =>
      cases records' with
      | nil => exact hget
      | cons => cases hlength
    | cons record records =>
      cases records' with
      | nil => cases hlength
      | cons record' records' =>
        refine ih (fun j => h (j + 1)) (Nat.succ.inj hlength) ?_
        rw [get?_put, get?_put]
        split
        next heq => exact h 0 (congrArg some heq)
        next => exact hget

end Experiment

theorem simulateAll_eq (budget : Nat) (experiment : Experiment) (g : Generator)
    (runs : List Run) :
    simulateAll budget experiment g runs = (simulateEach budget g runs).map fun results =>
      experiment.putAll ((runs.map Run.label).zip results.1) := by
  induction runs generalizing experiment g with
  | nil => rfl
  | cons run runs ih =>
    rw [simulateAll, simulateEach]
    cases hrun : run.simulate budget g with
    | error halt => rfl
    | ok result =>
      simp only [ih]
      cases simulateEach budget result.2 runs <;> rfl

/-! ## Other worlds and mechanisms -/

namespace Run

/-- The run with another world and another mechanism. -/
def exchange (run : Run) (world : World) (mechanism : Mechanism Float) : Run :=
  { run with world, mechanism }

variable {runs : List Run} {i : Nat} {world : World} {mechanism : Mechanism Float}

/-- What an exchange leaves is the same for all runs. -/
theorem map_modify_exchange {β : Type} {f : Run → β}
    (hf : ∀ run : Run, f (run.exchange world mechanism) = f run) :
    (runs.modify i fun run => run.exchange world mechanism).map f = runs.map f := by
  refine List.ext_getElem? fun j => ?_
  rw [List.getElem?_map, List.getElem?_map, List.getElem?_modify]
  split
  · cases runs[j]? with
    | none => rfl
    | some run => exact congrArg some (hf run)
  · simp

theorem getElem?_modify_exchange {j : Nat} (h : j ≠ i) :
    (runs.modify i fun run => run.exchange world mechanism)[j]? = runs[j]? := by
  rw [List.getElem?_modify]
  simp [Ne.symm h]

/-- The records of the other runs do not depend on the world and the mechanism of one run. -/
theorem getElem?_eq_of_exchange {budget budget' : Nat} {g : Generator}
    {results results' : List RunRecord × Generator}
    (h : simulateEach budget g runs = .ok results)
    (h' : simulateEach budget' g (runs.modify i fun run => run.exchange world mechanism) =
      .ok results') :
    results.2 = results'.2 ∧ results.1.length = results'.1.length ∧
      ∀ j ≠ i, results.1[j]? = results'.1[j]? := by
  have hcounts : (runs.modify i fun run => run.exchange world mechanism).map Run.subjects =
      runs.map Run.subjects := map_modify_exchange fun _ => rfl
  obtain ⟨hgenerator, hlength, hruns⟩ := simulateEach_eq_ok h
  obtain ⟨hgenerator', hlength', hruns'⟩ := simulateEach_eq_ok h'
  rw [hcounts] at hgenerator' hruns'
  rw [List.length_modify] at hlength'
  refine ⟨hgenerator.trans hgenerator'.symm, hlength.trans hlength'.symm, ?_⟩
  intro j hj
  cases hrun : runs[j]? with
  | none =>
    have hle : runs.length ≤ j := List.getElem?_eq_none_iff.1 hrun
    rw [List.getElem?_eq_none (hlength ▸ hle), List.getElem?_eq_none (hlength' ▸ hle)]
  | some run =>
    obtain ⟨record, _, hrecord, hsimulate⟩ := hruns j run hrun
    obtain ⟨record', _, hrecord', hsimulate'⟩ :=
      hruns' j run ((getElem?_modify_exchange hj).trans hrun)
    cases simulate_unique hsimulate hsimulate'
    rw [hrecord, hrecord']

/-- Runs do not disturb each other: with another world and another mechanism of one run, all other
runs record the same, in order and under their labels, and the generator is left the same.  What a
run leaves of the generator depends on its number of subjects. -/
theorem undisturbed (runs : List Run) (i : Nat) (world : World) (mechanism : Mechanism Float)
    (budget budget' : Nat) (g : Generator) :
    let exchanged := runs.modify i fun run => run.exchange world mechanism
    (∀ results results', simulateEach budget g runs = .ok results →
      simulateEach budget' g exchanged = .ok results' →
      results.2 = results'.2 ∧ results.1.length = results'.1.length ∧
        ∀ j ≠ i, results.1[j]? = results'.1[j]?) ∧
    (∀ experiment after after', simulateAll budget experiment g runs = .ok after →
      simulateAll budget' experiment g exchanged = .ok after' →
      ∀ label, (∀ run, runs[i]? = some run → run.label ≠ label) →
        after.get? label = after'.get? label) ∧
    (∀ (run : Run) record g', run.simulate budget g = .ok (record, g') →
      g' = (g.splits run.subjects).2) := by
  intro exchanged
  refine ⟨fun results results' h h' => getElem?_eq_of_exchange h h', ?_,
    fun run record g' h => generator_of_simulate h⟩
  intro experiment after after' h h' label hlabel
  rw [simulateAll_eq] at h h'
  obtain ⟨results, hresults, rfl⟩ := map_eq_ok.1 h
  obtain ⟨results', hresults', rfl⟩ := map_eq_ok.1 h'
  obtain ⟨-, hlength, hothers⟩ := getElem?_eq_of_exchange hresults hresults'
  rw [map_modify_exchange fun _ => rfl]
  refine Experiment.get?_putAll_congr (fun j hj => hothers j ?_) hlength rfl
  rintro rfl
  rw [List.getElem?_map] at hj
  obtain ⟨run, hrun, he⟩ := Option.map_eq_some_iff.1 hj
  exact hlabel run hrun he

/-- Two runs of the pairings. -/
def pairingsTwice : List Run := [pairings, { pairings with label := "again" }]

/-- The pairings with one unconditioned stimulus only. -/
def onePairing : World := ⟨pairings.world.phases.map fun phase =>
  { phase with ending := ⟨.element 1, 1⟩ }⟩

/-- The second run of the pairings records the same if the first one is shorter and learns by
another rule. -/
theorem undisturbed_pairings :
    ∃ results results', simulateEach 5 ⟨1⟩ pairingsTwice = .ok results ∧
      simulateEach 6 ⟨1⟩ (pairingsTwice.modify 0 fun run =>
        run.exchange onePairing { pairings.mechanism with rule := .rescorlaWagner }) =
          .ok results' ∧
      results.1.length = 2 ∧ results.1[1]? = results'.1[1]? ∧ results.2 = results'.2 := by
  have hlength : ((simulateEach 5 ⟨1⟩ pairingsTwice).toOption.map fun x => x.1.length) =
      some 2 := by decide +kernel
  have hsome : (simulateEach 6 ⟨1⟩ (pairingsTwice.modify 0 fun run =>
      run.exchange onePairing { pairings.mechanism with rule := .rescorlaWagner })).toOption.isSome =
        true := by decide +kernel
  obtain ⟨results, hresults, htwo⟩ := Option.map_eq_some_iff.1 hlength
  obtain ⟨results', hresults'⟩ := Option.isSome_iff_exists.1 hsome
  have hok := eq_ok_of_toOption_eq_some hresults
  have hok' := eq_ok_of_toOption_eq_some hresults'
  obtain ⟨hgenerator, -, hothers⟩ := (undisturbed pairingsTwice 0 onePairing
    { pairings.mechanism with rule := .rescorlaWagner } 5 6 ⟨1⟩).1 results results' hok hok'
  exact ⟨results, results', hok, hok', htwo, hothers 1 (by decide), hgenerator⟩

end Run

end Conditioning
