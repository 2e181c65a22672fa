import Conditioning.Proofs.Query.Selection
import Conditioning.Proofs.Run.Steps

/-!
# Restrictions to single phases

A world goes from phase to phase and never back, so the steps of a record are
ordered by their phases (`Record.Traces.inOrder`), and every step belongs to
some phase of the run.  If the labels of the phases differ, the steps of the first
one, those of the second one and so on are therefore all the steps in order
(`flatMap_phaseSteps`).

Without a pattern for the steps, and as long as no counts are added up, the value of
a query at a step does not depend on the other steps that are selected.  So the
answers for the single phases are the parts of the unrestricted answer
(`Experiment.evaluate_phases_flatten`).
-/

namespace Conditioning

/-! ## Sorted lists -/

theorem filter_lt_append_filter_eq {α : Type} {key : α → Nat} {xs : List α}
    (hsorted : xs.Pairwise fun x y => key x ≤ key y) (n : Nat) :
    (xs.filter fun x => key x < n) ++ (xs.filter fun x => key x = n) =
      xs.filter fun x => key x < n + 1 := by
  induction xs with
  | nil => rfl
  | cons x xs ih =>
    obtain ⟨hle, hsorted⟩ := List.pairwise_cons.1 hsorted
    rcases Nat.lt_or_ge (key x) n with hlt | hge
    · have hlt' : key x < n + 1 := Nat.lt_succ_of_lt hlt
      have hne : ¬key x = n := Nat.ne_of_lt hlt
      rw [List.filter_cons_of_pos (by simpa using hlt), List.filter_cons_of_neg (by simpa using hne),
        List.filter_cons_of_pos (by simpa using hlt'), List.cons_append, ih hsorted]
    · have hkeys : ∀ y ∈ x :: xs, n ≤ key y := by
        intro y hy
        rcases List.mem_cons.1 hy with rfl | hy
        · exact hge
        · exact Nat.le_trans hge (hle y hy)
      -- nothing is left of the first part, and the second part is the whole
      have hnone : ((x :: xs).filter fun y => key y < n) = [] := by
        refine List.filter_eq_nil_iff.2 fun y hy => ?_
        simpa using hkeys y hy
      rw [hnone, List.nil_append]
      refine List.filter_congr fun y hy => ?_
      have hkey := hkeys y hy
      simp only [decide_eq_decide]
      omega

/-- The members of a list that is sorted by a key are those with the first key, then those with the
second one, and so on. -/
theorem flatMap_filter_eq_filter_lt {α : Type} {key : α → Nat} {xs : List α}
    (hsorted : xs.Pairwise fun x y => key x ≤ key y) (n : Nat) :
    ((List.range n).flatMap fun j => xs.filter fun x => key x = j) =
      xs.filter fun x => key x < n := by
  induction n with
  | zero => simp
  | succ n ih =>
    rw [List.range_succ, List.flatMap_append, ih, ← filter_lt_append_filter_eq hsorted]
    simp

/-! ## Phases of a record -/

/-- Every step belongs to one of `n` phases, and no step belongs to an earlier phase than a step
before it. -/
structure Record.InOrder (record : Record) (n : Nat) : Prop where
  exists_phase : ∀ k < record.stepCount, ∃ phase < n, record.phaseOf? k = some phase
  le : ∀ j k phase phase', j ≤ k → record.phaseOf? j = some phase →
    record.phaseOf? k = some phase' → phase ≤ phase'

/-- The phases of a record are in order: the world never goes back. -/
theorem Record.Traces.inOrder {record : Record} {run : Run} {apparatus : Apparatus} {seed : UInt64}
    (h : record.Traces run apparatus seed)
    (hcurrent : apparatus.world.current < run.world.phases.length) :
    record.InOrder run.world.phases.length where
  exists_phase k hk := by
    rw [h.stepCount_eq] at hk
    obtain ⟨subject, hsubject⟩ :=
      Option.isSome_iff_exists.1 ((h.isSome_iff k).2 (Nat.le_of_lt_succ hk))
    refine ⟨subject.phase, Run.phase_lt_of_replay hcurrent hsubject, ?_⟩
    rw [h.phase, hsubject, Option.map_some]
  le j k phase phase' hle hphase hphase' := by
    rw [h.phase] at hphase hphase'
    obtain ⟨before, hbefore, rfl⟩ := Option.map_eq_some_iff.1 hphase
    obtain ⟨later, hlater, rfl⟩ := Option.map_eq_some_iff.1 hphase'
    exact Run.phase_le_of_replay hle hbefore hlater

/-- The phase of a step, or zero if the step is none of the record. -/
def Record.phaseAt (record : Record) (step : Nat) : Nat := (record.phaseOf? step).getD 0

namespace Record.InOrder

variable {record : Record} {n : Nat}

theorem phaseOf?_eq (h : record.InOrder n) {k : Nat} (hk : k < record.stepCount) :
    record.phaseOf? k = some (record.phaseAt k) := by
  obtain ⟨phase, -, hphase⟩ := h.exists_phase k hk
  rw [phaseAt, hphase, Option.getD_some]

theorem phaseAt_lt (h : record.InOrder n) {k : Nat} (hk : k < record.stepCount) :
    record.phaseAt k < n := by
  obtain ⟨phase, hlt, hphase⟩ := h.exists_phase k hk
  rw [phaseAt, hphase, Option.getD_some]
  exact hlt

theorem pairwise_phaseAt (h : record.InOrder n) :
    (List.range record.stepCount).Pairwise fun j k => record.phaseAt j ≤ record.phaseAt k := by
  refine List.pairwise_lt_range.imp_of_mem ?_
  intro j k hj hk hlt
  exact h.le j k _ _ (Nat.le_of_lt hlt) (h.phaseOf?_eq (List.mem_range.1 hj))
    (h.phaseOf?_eq (List.mem_range.1 hk))

end Record.InOrder

section

variable {run : RunRecord} {record : Record}

theorem phaseSteps_singleton {label : String} {phase : Nat} (h : run.phase? label = some phase) :
    phaseSteps run record [label] =
      (List.range record.stepCount).filter fun k => record.phaseOf? k = some phase := by
  rw [phaseSteps, List.filterMap_cons, h, List.filterMap_nil]
  refine List.filter_congr fun k _ => ?_
  rw [inPhases, List.isEmpty_cons, Bool.false_or]
  cases record.phaseOf? k <;> simp [eq_comm]

/-- The steps of the first phase, those of the second one, and so on are all the steps. -/
theorem flatMap_phaseSteps (hnodup : run.phaseLabels.Nodup)
    (horder : record.InOrder run.phaseLabels.length) :
    (run.phaseLabels.flatMap fun label => phaseSteps run record [label]) =
      List.range record.stepCount := by
  have hparts : (run.phaseLabels.map fun label => phaseSteps run record [label]) =
      (List.range run.phaseLabels.length).map fun j =>
        (List.range record.stepCount).filter fun k => record.phaseAt k = j := by
    refine List.ext_getElem (by simp) fun i hi _ => ?_
    have hlabel := List.getElem?_eq_getElem (l := run.phaseLabels) (i := i) (by simpa using hi)
    rw [List.getElem_map, List.getElem_map, List.getElem_range,
      phaseSteps_singleton (run.phase?_of_nodup hnodup hlabel)]
    refine List.filter_congr fun k hk => ?_
    simp [horder.phaseOf?_eq (List.mem_range.1 hk)]
  have hall : ((List.range record.stepCount).filter fun k =>
      record.phaseAt k < run.phaseLabels.length) = List.range record.stepCount := by
    refine List.filter_eq_self.2 fun k hk => ?_
    exact decide_eq_true (horder.phaseAt_lt (List.mem_range.1 hk))
  rw [List.flatMap_def, hparts, ← List.flatMap_def,
    flatMap_filter_eq_filter_lt horder.pairwise_phaseAt, hall]

end

/-! ## Values of a query -/

theorem accumulate_eq_map_getD (counts : Array Nat) (start total : Nat) (steps : List Nat) :
    accumulate counts false false start total steps = steps.map fun k => counts.getD k 0 := by
  induction steps generalizing start total with
  | nil => rfl
  | cons k steps ih => simp [accumulate, ih]

namespace Query

variable {run : RunRecord} {record : Record} {options : Options} {query : Query}

/-- A query that does not add up counts has a value for each step, whatever steps are selected. -/
theorem exists_valuesAt_eq_map (run : RunRecord) (record : Record) (hsteps : options.steps = none)
    (hcumulative : ∀ items reference, query = .n items reference → options.cumulative = false) :
    ∃ value : Nat → Float, ∀ labels steps,
      query.valuesAt run record { options with phases := labels } steps = steps.map value := by
  cases query with
  | v pair => exact ⟨_, fun labels steps => rfl⟩
  | w element => exact ⟨_, fun labels steps => rfl⟩
  | p elements behavior => exact ⟨_, fun labels steps => rfl⟩
  | n items reference =>
    have hcounts (labels : List String) (steps : List Nat) (items : List Item) :
        countSeries record { options with phases := labels } steps items =
          steps.map fun k => (stepCounts options.exactN items record).toArray.getD k 0 := by
      simp only [countSeries, hsteps, hcumulative _ _ rfl]
      exact accumulate_eq_map_getD ..
    cases reference with
    | none =>
      refine ⟨fun k => ((stepCounts options.exactN items record).toArray.getD k 0).toFloat, ?_⟩
      intro labels steps
      rw [valuesAt, hcounts, List.map_map]
      rfl
    | some others =>
      refine ⟨fun k => ratio ((stepCounts options.exactN items record).toArray.getD k 0)
        ((stepCounts options.exactN others record).toArray.getD k 0), ?_⟩
      intro labels steps
      rw [valuesAt, hcounts, hcounts, List.zipWith_map, List.zipWith_self]

/-- Only a query for a count asks for counts. -/
theorem quantity_of_ofExpression_n {expression : Expression} {items : List Item}
    {reference : Option (List Item)}
    (h : ofExpression run expression = .ok (.n items reference)) : expression.quantity = .n := by
  cases expression with
  | v element behavior =>
    obtain ⟨_, _, h⟩ := bind_eq_ok.1 h
    obtain ⟨_, _, h⟩ := bind_eq_ok.1 h
    cases h
  | w element =>
    rw [ofExpression] at h
    split at h
    next => cases h
    next =>
      obtain ⟨_, _, h⟩ := bind_eq_ok.1 h
      cases h
  | p stimulus behavior =>
    obtain ⟨_, _, h⟩ := bind_eq_ok.1 h
    obtain ⟨_, _, h⟩ := bind_eq_ok.1 h
    cases h
  | n pattern reference => rfl

end Query

namespace Experiment

/-- If the labels of the phases differ, the answers for the single phases, one after the other, are
the answer for the whole run. -/
theorem evaluate_phases_flatten {run : Run} (hne : run.world.phases ≠ []) {budget : Nat}
    {g g' : Generator} {result : RunRecord} (hsimulate : run.simulate budget g = .ok (result, g'))
    (hnodup : result.phaseLabels.Nodup) {experiment : Experiment} {options : Options}
    (hselect : experiment.selectRun options = .ok result) (hsteps : options.steps = none) {i : Nat}
    (hselection : options.selection = .index i) {record : Record}
    (hrecord : result.subjects[i]? = some record) {expression : Expression} {query : Query}
    (hquery : Query.ofExpression result expression = .ok query)
    (hcumulative : expression.quantity = .n → options.cumulative = false) :
    ∃ values parts,
      experiment.evaluate expression { options with phases := [] } = .ok (.series values) ∧
      List.Forall₂ (fun label part =>
          experiment.evaluate expression { options with phases := [label] } = .ok (.series part))
        result.phaseLabels parts ∧
      parts.flatten = values ∧ values.length = record.stepCount := by
  have hcounts : ∀ items reference, query = .n items reference → options.cumulative = false := by
    rintro items reference rfl
    exact hcumulative (Query.quantity_of_ofExpression_n hquery)
  obtain ⟨value, hvalues⟩ := Query.exists_valuesAt_eq_map result record hsteps hcounts
  have hanswer (labels : List String) (hlabels : ∀ label ∈ labels, (result.phase? label).isSome) :
      experiment.evaluate expression { options with phases := labels } =
        .ok (.series ((phaseSteps result record labels).map value)) := by
    have hselect' : experiment.selectRun { options with phases := labels } = .ok result := hselect
    rw [← hvalues labels]
    exact evaluate_eq_valuesAt hselect' hselection hrecord hlabels hquery
      (selectedSteps_of_steps_eq_none hsteps)
  have horder : record.InOrder result.phaseLabels.length := by
    obtain ⟨seed, -, htraces⟩ := exists_of_mem_forall₂ (Run.traces_of_simulate hsimulate)
      (List.mem_of_getElem? hrecord)
    rw [Run.eq_toRecord_of_simulate hsimulate]
    simpa [Run.toRecord] using htraces.inOrder (List.length_pos_of_ne_nil hne)
  refine ⟨_, result.phaseLabels.map fun label => (phaseSteps result record [label]).map value,
    hanswer [] (by simp), ?_, ?_, ?_⟩
  · refine List.forall₂_map_right_iff.2 (List.forall₂_same.2 fun label hlabel => ?_)
    exact hanswer [label] (by simpa [RunRecord.phase?] using hlabel)
  · rw [phaseSteps_nil, ← flatMap_phaseSteps hnodup horder, List.flatMap_def,
      List.map_flatten, List.map_map]
    rfl
  · rw [phaseSteps_nil, List.length_map, List.length_range]

/-- The query of the second run of `twoPhases` for each conditioned stimulus and each unconditioned
one, step by step. -/
theorem evaluate_phases_flatten_twoPhases :
    let options : Options := { Options.default with selection := .index 0, cumulative := false }
    let expression : Expression := .n (.name "cs") (some (.name "us"))
    ∃ result g' record values parts, Script.twoPhaseRun.simulate 7 ⟨1⟩ = .ok (result, g') ∧
      result.phaseLabels = ["pairing", "again"] ∧ result.subjects[0]? = some record ∧
      (empty.put "both" result).evaluate expression { options with phases := [] } =
        .ok (.series values) ∧
      List.Forall₂ (fun label part =>
          (empty.put "both" result).evaluate expression { options with phases := [label] } =
            .ok (.series part))
        result.phaseLabels parts ∧
      parts.flatten = values ∧ values.length = 7 := by
  intro options expression
  have hseen : ((Script.twoPhaseRun.simulate 7 ⟨1⟩).toOption.any fun x =>
      x.1.subjects[0]?.any fun record =>
        x.1.vocabulary = PhaseText.trialVocabulary ∧ x.1.phaseLabels = ["pairing", "again"] ∧
          record.stepCount = 7) = true := by decide +kernel
  obtain ⟨⟨result, g'⟩, hsimulate, hseen⟩ := (Option.any_eq_true _ _).1 hseen
  obtain ⟨record, hrecord, hseen⟩ := (Option.any_eq_true _ _).1 hseen
  obtain ⟨hvocabulary, hlabels, hcount⟩ := of_decide_eq_true hseen
  have hok := eq_ok_of_toOption_eq_some hsimulate
  have hquery : Query.ofExpression result expression =
      .ok (.n [.elements [0]] (some [.elements [1]])) := by
    simp only [expression, Query.ofExpression]
    rw [hvocabulary]
    rfl
  have hselect : (empty.put "both" result).selectRun options = .ok result := rfl
  have hnodup : result.phaseLabels.Nodup := by
    rw [hlabels]
    decide
  obtain ⟨values, parts, hvalues, hparts, hflatten, hlength⟩ :=
    evaluate_phases_flatten (List.cons_ne_nil _ _) hok hnodup hselect rfl rfl hrecord hquery
      fun _ => rfl
  exact ⟨result, g', record, values, parts, hok, hlabels, hrecord, hvalues, hparts, hflatten,
    hlength.trans hcount⟩

end Experiment

end Conditioning
