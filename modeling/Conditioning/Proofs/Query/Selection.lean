import Conditioning.Proofs.Except
import Conditioning.Proofs.Query.Occurrences
import Conditioning.Proofs.Script.Assembly
import Conditioning.Query.Evaluation

/-!
# Counts at selected steps

The selected steps are steps of the record in increasing order.  If they are the
steps of some phases, each stands for itself, and the counts that are added up are
those of the selected steps.  If they are sampled by a pattern, each stands for all
the steps since the one before, and the first one for all the steps up to it; what
is added up are then the counts of all steps, those of other phases included
(`accumulate_eq_map`).

So a restriction to phases keeps out the occurrences of other phases only as long
as no pattern samples the steps (`Experiment.evaluate_n_cumulative`).
-/

namespace Conditioning

/-! ## Selected steps -/

section

variable {run : RunRecord} {record : Record} {options : Options} {steps : List Nat}

theorem phaseSteps_sublist (labels : List String) :
    (phaseSteps run record labels).Sublist (List.range record.stepCount) :=
  List.filter_sublist

/-- Selecting leaves out steps of the record. -/
theorem selectedSteps_sublist (h : selectedSteps run record options = .ok steps) :
    steps.Sublist (phaseSteps run record options.phases) := by
  unfold selectedSteps at h
  simp only at h
  split at h
  next =>
    cases h
    exact List.Sublist.refl _
  next =>
    obtain ⟨items, -, h⟩ := bind_eq_ok.1 h
    cases h
    exact List.filter_sublist

/-- Steps can be selected if the pattern for them, if there is one, is resolved. -/
theorem exists_selectedSteps (record : Record)
    (h : ∀ pattern ∈ options.steps, ∃ items, pattern.resolve run.vocabulary = .ok items) :
    ∃ steps, selectedSteps run record options = .ok steps := by
  unfold selectedSteps
  simp only
  split
  next => exact ⟨_, rfl⟩
  next pattern hpattern =>
    obtain ⟨items, hitems⟩ := h pattern hpattern
    exact ⟨_, bind_eq_ok.2 ⟨items, hitems, rfl⟩⟩

theorem selectedSteps_of_steps_eq_none (h : options.steps = none) :
    selectedSteps run record options = .ok (phaseSteps run record options.phases) := by
  simp only [selectedSteps, h]

theorem pairwise_lt_of_selectedSteps (h : selectedSteps run record options = .ok steps) :
    steps.Pairwise (· < ·) :=
  List.pairwise_lt_range.sublist ((selectedSteps_sublist h).trans (phaseSteps_sublist _))

theorem lt_stepCount_of_selectedSteps (h : selectedSteps run record options = .ok steps) {k : Nat}
    (hk : k ∈ steps) : k < record.stepCount :=
  List.mem_range.1 (((selectedSteps_sublist h).trans (phaseSteps_sublist _)).subset hk)

end

/-! ## Sums of counts -/

section

variable {counts : Array Nat} {occurred : List Nat}

theorem countP_eq_add {p q r : Nat → Prop} [DecidablePred p] [DecidablePred q] [DecidablePred r]
    (xs : List Nat) (hcover : ∀ x, p x ↔ q x ∨ r x) (hdisjoint : ∀ x, q x → ¬r x) :
    xs.countP (fun x => p x) = xs.countP (fun x => q x) + xs.countP (fun x => r x) := by
  induction xs with
  | nil => rfl
  | cons x xs ih =>
    rw [List.countP_cons, List.countP_cons, List.countP_cons, ih]
    by_cases hq : q x
    · simp [hcover, hq, hdisjoint x hq]
      omega
    · by_cases hr : r x <;> simp [hcover, hq, hr]
      omega

/-- The sum of the counts at the steps from `start` to `stop` counts what occurred in between. -/
theorem spanSum_eq {start stop : Nat} (hcounts : ∀ k ≤ stop, counts.getD k 0 = occurred.count k) :
    spanSum counts start stop = occurred.countP fun x => start ≤ x ∧ x ≤ stop := by
  have hsum (n : Nat) (hn : start + n ≤ stop + 1) :
      (List.range' start n).foldl (fun sum k => sum + counts.getD k 0) 0 =
        occurred.countP fun x => start ≤ x ∧ x < start + n := by
    induction n with
    | zero =>
      refine (List.countP_eq_zero.2 fun x _ => ?_).symm
      simp only [Nat.add_zero, decide_eq_true_eq]
      omega
    | succ n ih =>
      rw [List.range'_1_concat, List.foldl_append, ih (by omega), List.foldl_cons, List.foldl_nil,
        hcounts _ (by omega), List.count_eq_countP]
      simp only [beq_eq_decide]
      refine (countP_eq_add occurred (fun x => ?_) fun x hx => ?_).symm
      · omega
      · omega
  rcases Nat.le_total start (stop + 1) with hle | hge
  · rw [spanSum, hsum _ (by omega)]
    refine List.countP_congr fun x _ => ?_
    simp only [decide_eq_true_eq]
    omega
  · rw [spanSum, Nat.sub_eq_zero_of_le hge]
    refine (List.countP_eq_zero.2 fun x _ => ?_).symm
    simp only [decide_eq_true_eq]
    omega

/-- The sums at increasing steps count what occurred up to each of them: at any step if the steps
are samples, else at one of them. -/
theorem accumulate_eq_map (sampled : Bool) {start total : Nat} {steps : List Nat}
    (hsteps : steps.Pairwise (· < ·)) (hstart : ∀ k ∈ steps, start ≤ k)
    (hcounts : ∀ k ∈ steps, ∀ j ≤ k, counts.getD j 0 = occurred.count j) :
    accumulate counts sampled true start total steps = steps.map fun k =>
      total + occurred.countP fun x =>
        (start ≤ x ∧ x ≤ k) ∧ (sampled = true ∨ x ∈ steps) := by
  induction steps generalizing start total with
  | nil => rfl
  | cons k steps ih =>
    obtain ⟨hlt, hsteps⟩ := List.pairwise_cons.1 hsteps
    obtain ⟨hk, hstart⟩ := List.forall_mem_cons.1 hstart
    obtain ⟨hcount, hcounts⟩ := List.forall_mem_cons.1 hcounts
    have hspan : (if sampled then spanSum counts start k else counts.getD k 0) =
        occurred.countP fun x =>
          (start ≤ x ∧ x ≤ k) ∧ (sampled = true ∨ x ∈ k :: steps) := by
      cases sampled with
      | true => simpa using spanSum_eq hcount
      | false =>
        rw [if_neg Bool.false_ne_true, hcount k (Nat.le_refl k), List.count_eq_countP]
        refine List.countP_congr fun x _ => ?_
        have hlater : x ∈ steps → k < x := hlt x
        simp only [beq_iff_eq, List.mem_cons, decide_eq_true_eq, Bool.false_eq_true, false_or]
        grind
    rw [accumulate, List.map_cons, ← hspan, if_pos rfl,
      ih hsteps (fun k' hk' => hlt k' hk') hcounts]
    congr 1
    refine List.map_congr_left fun k' hk' => ?_
    have hlt' := hlt k' hk'
    -- what occurred up to the later step occurred either up to this one or after it
    have hsplit : (occurred.countP fun x =>
          (start ≤ x ∧ x ≤ k') ∧ (sampled = true ∨ x ∈ k :: steps)) =
        (occurred.countP fun x => (start ≤ x ∧ x ≤ k) ∧ (sampled = true ∨ x ∈ k :: steps)) +
          occurred.countP fun x => (k + 1 ≤ x ∧ x ≤ k') ∧ (sampled = true ∨ x ∈ steps) := by
      refine countP_eq_add occurred (fun x => ?_) fun x => ?_
      · have hlater : x ∈ steps → k < x := hlt x
        simp only [List.mem_cons]
        grind
      · grind
    rw [hspan, hsplit, Nat.add_assoc]

end

/-! ## Counts of a restricted query -/

/-- Whether a step belongs to a phase that is named.  The label of several phases of a run names the
first of them. -/
def RunRecord.Named (run : RunRecord) (record : Record) (labels : List String) (step : Nat) :
    Prop :=
  ∃ label ∈ labels, (run.phase? label).isSome ∧ record.phaseOf? step = run.phase? label

instance (run : RunRecord) (record : Record) (labels : List String) (step : Nat) :
    Decidable (run.Named record labels step) :=
  inferInstanceAs (Decidable (∃ label ∈ labels, _ ∧ _))

section

variable {run : RunRecord} {record : Record} {options : Options} {labels : List String}

/-- A label that no other phase has names its phase. -/
theorem RunRecord.phase?_of_nodup (hnodup : run.phaseLabels.Nodup) {phase : Nat} {label : String}
    (h : run.phaseLabels[phase]? = some label) : run.phase? label = some phase := by
  obtain ⟨hlt, rfl⟩ := List.getElem?_eq_some_iff.1 h
  refine List.idxOf?_eq_some_iff.2 ⟨hlt, rfl, ?_⟩
  intro j hj he
  exact Nat.ne_of_lt hj (hnodup.getElem_inj_iff.1 he)

theorem phaseSteps_nil : phaseSteps run record [] = List.range record.stepCount := by
  simp [phaseSteps, inPhases]

theorem mem_phaseSteps (hne : labels ≠ []) (hlabels : ∀ label ∈ labels, (run.phase? label).isSome)
    {k : Nat} :
    k ∈ phaseSteps run record labels ↔ k < record.stepCount ∧ run.Named record labels k := by
  have hphases : (labels.filterMap run.phase?).isEmpty = false := by
    cases labels with
    | nil => exact absurd rfl hne
    | cons label labels =>
      obtain ⟨phase, hphase⟩ := Option.isSome_iff_exists.1 (hlabels label List.mem_cons_self)
      rw [List.filterMap_cons, hphase]
      rfl
  have hin : inPhases record (labels.filterMap run.phase?) k = true ↔
      run.Named record labels k := by
    rw [inPhases, hphases, Bool.false_or]
    cases hphase : record.phaseOf? k with
    | none =>
      refine iff_of_false Bool.false_ne_true ?_
      rintro ⟨label, -, hsome, heq⟩
      rw [hphase] at heq
      rw [← heq] at hsome
      cases hsome
    | some phase =>
      simp only [List.contains_iff_mem, List.mem_filterMap, RunRecord.Named, hphase]
      refine exists_congr fun label => and_congr_right fun _ => ⟨fun h => ?_, fun h => h.2.symm⟩
      rw [h]
      exact ⟨rfl, rfl⟩
  rw [phaseSteps, List.mem_filter, List.mem_range, hin]

/-- The counts of a pattern at the selected steps, added up: the occurrences up to each of these
steps, at selected steps only unless the steps are sampled. -/
theorem countSeries_eq_map_mem (hcumulative : options.cumulative = true) {steps : List Nat}
    (h : selectedSteps run record options = .ok steps) (items : List Item) :
    countSeries record options steps items = steps.map fun k =>
      (occurrences options.exactN items (tokens record.history.toList)).countP fun place =>
        stepOf place ≤ k ∧ (options.steps.isSome = true ∨ stepOf place ∈ steps) := by
  have hcounts : ∀ k ∈ steps, ∀ j ≤ k,
      (stepCounts options.exactN items record).toArray.getD j 0 =
        (occurrenceSteps options.exactN items (tokens record.history.toList)).count j := by
    intro k hk j hj
    exact getD_stepCounts (Nat.lt_of_le_of_lt hj (lt_stepCount_of_selectedSteps h hk))
  rw [countSeries, hcumulative,
    accumulate_eq_map _ (pairwise_lt_of_selectedSteps h) (fun _ _ => Nat.zero_le _) hcounts]
  refine List.map_congr_left fun k hk => ?_
  rw [Nat.zero_add, occurrenceSteps, List.countP_map]
  refine List.countP_congr fun place _ => ?_
  simp only [Function.comp_apply, decide_eq_true_eq, Nat.zero_le, true_and]

/-- The counts of a pattern at the selected steps, added up: the occurrences up to each of these
steps, of named phases only unless the steps are sampled. -/
theorem countSeries_eq_map (hcumulative : options.cumulative = true) (hne : options.phases ≠ [])
    (hphases : ∀ label ∈ options.phases, (run.phase? label).isSome) {steps : List Nat}
    (h : selectedSteps run record options = .ok steps) (items : List Item) :
    countSeries record options steps items = steps.map fun k =>
      (occurrences options.exactN items (tokens record.history.toList)).countP fun place =>
        stepOf place ≤ k ∧
          (options.steps.isSome = true ∨ run.Named record options.phases (stepOf place)) := by
  rw [countSeries_eq_map_mem hcumulative h]
  refine List.map_congr_left fun k hk => List.countP_congr fun place _ => ?_
  have hlt := lt_stepCount_of_selectedSteps h hk
  simp only [decide_eq_true_eq]
  refine and_congr_right fun hle => or_congr_right' fun hsteps => ?_
  -- without a pattern for the steps, all steps of the named phases are selected
  cases h.symm.trans (selectedSteps_of_steps_eq_none (Option.not_isSome_iff_eq_none.1 hsteps))
  rw [mem_phaseSteps hne hphases]
  exact and_iff_right (Nat.lt_of_le_of_lt hle hlt)

end

/-- The phases that are asked for are accepted if each of them is a phase of the run. -/
theorem Query.checkPhases_eq_ok {run : RunRecord} {labels : List String} :
    checkPhases run labels = .ok () ↔ ∀ label ∈ labels, (run.phase? label).isSome := by
  unfold checkPhases
  cases hfind : labels.find? fun label => (run.phase? label).isNone with
  | some label =>
    have hnone := List.find?_some hfind
    refine iff_of_false (fun h => by cases h) fun hall => ?_
    have hsome := hall label (List.mem_of_find?_eq_some hfind)
    rw [Option.isNone_iff_eq_none.1 hnone] at hsome
    cases hsome
  | none =>
    refine iff_of_true rfl fun label hlabel => ?_
    simpa [Option.isSome_iff_ne_none] using List.find?_eq_none.1 hfind label hlabel

namespace Experiment

variable {experiment : Experiment} {options : Options} {run : RunRecord} {record : Record} {i : Nat}
  {pattern : Pattern} {items : List Item}

/-- The answer to a query for one subject: its values at the selected steps. -/
theorem evaluate_eq_valuesAt (hrun : experiment.selectRun options = .ok run)
    (hselection : options.selection = .index i) (hrecord : run.subjects[i]? = some record)
    (hphases : ∀ label ∈ options.phases, (run.phase? label).isSome) {expression : Expression}
    {query : Query} (hquery : Query.ofExpression run expression = .ok query) {steps : List Nat}
    (hselected : selectedSteps run record options = .ok steps) :
    experiment.evaluate expression options =
      .ok (.series (query.valuesAt run record options steps)) := by
  have hresolve : Query.resolve run expression options = .ok query :=
    bind_eq_ok.2 ⟨(), Query.checkPhases_eq_ok.2 hphases, hquery⟩
  have hseries : query.series run options record =
      .ok (query.valuesAt run record options steps) :=
    bind_eq_ok.2 ⟨steps, hselected, rfl⟩
  refine bind_eq_ok.2 ⟨run, hrun, bind_eq_ok.2 ⟨query, hresolve, ?_⟩⟩
  rw [answer, hselection]
  simp only [hrecord, hseries]
  rfl

/-- The answer to a query for a count, for one subject. -/
theorem evaluate_n (hrun : experiment.selectRun options = .ok run)
    (hselection : options.selection = .index i) (hrecord : run.subjects[i]? = some record)
    (hphases : ∀ label ∈ options.phases, (run.phase? label).isSome)
    (hitems : pattern.resolve run.vocabulary = .ok items) {steps : List Nat}
    (hselected : selectedSteps run record options = .ok steps) :
    experiment.evaluate (.n pattern none) options =
      .ok (.series ((countSeries record options steps items).map Nat.toFloat)) := by
  have hquery : Query.ofExpression run (.n pattern none) = .ok (.n items none) :=
    bind_eq_ok.2 ⟨items, hitems, rfl⟩
  exact evaluate_eq_valuesAt hrun hselection hrecord hphases hquery hselected

end Experiment

/-! ## A run of two phases -/

namespace Script

/-- What follows the pairings in `twoPhases`. -/
def anotherPhase : String := String.intercalate "\n" [
  "@phase \x7b'label': 'again', 'end': 'us=1'\x7d",
  "CS cs | US",
  "US us | CS",
  "@run \x7b'label': 'both'\x7d"]

/-- The script of the pairings, and a run in which a phase of one pairing follows. -/
def twoPhases : String := pairings ++ "\n" ++ anotherPhase

/-- The phases of the second run of `twoPhases`. -/
def twoPhaseWorld : World :=
  ⟨Run.pairings.world.phases ++ Run.pairings.world.phases.map fun phase =>
    { phase with label := "again", ending := ⟨.element 1, 1⟩ }⟩

/-- The second run of `twoPhases`. -/
def twoPhaseRun : Run := { pairingRun with label := "both", world := twoPhaseWorld }

/-- The draft that the blocks of `twoPhases` lead to. -/
def twoPhaseDraft : Draft := { pairingDraft with script := { pairingDraft.script with
  phases := [PhaseText.pairing, ⟨"again", "us=1", PhaseText.pairing.rows⟩]
  runs := [pairingRun, { pairingRun with label := "both", world := twoPhaseWorld }] } }

open Literal in
theorem parse_twoPhases : Script.parse twoPhases = .ok twoPhaseDraft.script := by
  have hlines : cleanLines anotherPhase.toList =
      ["@phase \x7b'label': 'again', 'end': 'us=1'\x7d".toList, "CS cs | US".toList,
        "US us | CS".toList, "@run \x7b'label': 'both'\x7d".toList] := by
    rw [anotherPhase, cleanLines_intercalate]
    decide +kernel
  have hanother : blocksOf (cleanLines anotherPhase.toList) = .ok [
      ⟨.phase, some "\x7b'label': 'again', 'end': 'us=1'\x7d", PhaseText.pairing.rows⟩,
      ⟨.run, some "\x7b'label': 'both'\x7d", []⟩] := by
    rw [hlines]
    exact blocksOf_cons rfl rfl <| blocksOf_cons rfl rfl blocksOf_nil
  have hphase : Reads "\x7b'label': 'again', 'end': 'us=1'\x7d".toList
      (.dict [(.str "label", .str "again"), (.str "end", .str "us=1")]) [] :=
    .dict rfl
      (.more rfl (.quoted "label" ": 'again', 'end': 'us=1'\x7d".toList rfl (.inl rfl) rfl) rfl rfl
        (.quoted "again" ", 'end': 'us=1'\x7d".toList rfl (.inl rfl) rfl) rfl
        (.last rfl (.quoted "end" ": 'us=1'\x7d".toList rfl (.inl rfl) rfl) rfl rfl
          (.quoted "us=1" "\x7d".toList rfl (.inl rfl) rfl) rfl rfl))
  have hlabel : Reads "\x7b'label': 'both'\x7d".toList (.dict [(.str "label", .str "both")]) [] :=
    .dict rfl (.last rfl (.quoted "label" ": 'both'\x7d".toList rfl (.inl rfl) rfl) rfl rfl
      (.quoted "both" "\x7d".toList rfl (.inl rfl) rfl) rfl rfl)
  have hcompiled : (twoPhaseDraft.script.phases.mapM fun text =>
      text.compile PhaseText.trialVocabulary) = .ok twoPhaseWorld.phases :=
    mapM_eq_ok.2 (.cons (PhaseText.compile_pairingRows rfl)
      (.cons (PhaseText.compile_pairingRows rfl) .nil))
  refine parse_pairings_newline ⟨_, _, hlines, rfl⟩ hanother ?_
  rw [List.foldlM_cons]
  refine bind_eq_ok.2 ⟨_, Draft.addBlock_phase hphase, ?_⟩
  rw [List.foldlM_cons]
  exact bind_eq_ok.2 ⟨_, Draft.addBlock_pairingRun hlabel rfl hcompiled rfl (by decide), rfl⟩

end Script

/-! ## Restricted queries -/

/-- The label of the phase that a step belongs to. -/
def RunRecord.labelOf? (run : RunRecord) (record : Record) (step : Nat) : Option String :=
  (record.phaseOf? step).bind fun phase => run.phaseLabels[phase]?

namespace Experiment

variable {experiment : Experiment} {options : Options} {run : RunRecord} {record : Record} {i : Nat}
  {pattern : Pattern} {items : List Item}

/-- A query for the number of occurrences of a pattern, added up and restricted to phases, gives at
each selected step the number of occurrences that start up to this step.  Those of other phases
are left out if the steps are not sampled, and are counted with the others if they are. -/
theorem evaluate_n_cumulative (hrun : experiment.selectRun options = .ok run)
    (hselection : options.selection = .index i) (hrecord : run.subjects[i]? = some record)
    (hcumulative : options.cumulative = true) (hne : options.phases ≠ [])
    (hphases : ∀ label ∈ options.phases, (run.phase? label).isSome)
    (hitems : pattern.resolve run.vocabulary = .ok items)
    (hsteps : ∀ sample ∈ options.steps, ∃ items, sample.resolve run.vocabulary = .ok items) :
    ∃ steps, selectedSteps run record options = .ok steps ∧
      experiment.evaluate (.n pattern none) options = .ok (.series (steps.map fun k =>
        ((occurrences options.exactN items (tokens record.history.toList)).countP fun place =>
          stepOf place ≤ k ∧ (options.steps.isSome = true ∨
            run.Named record options.phases (stepOf place))).toFloat)) := by
  have hselected : ∃ steps, selectedSteps run record options = .ok steps := by
    unfold selectedSteps
    simp only
    split
    next => exact ⟨_, rfl⟩
    next sample hsample =>
      obtain ⟨items, hitems⟩ := hsteps sample hsample
      exact ⟨_, bind_eq_ok.2 ⟨items, hitems, rfl⟩⟩
  obtain ⟨steps, hselected⟩ := hselected
  refine ⟨steps, hselected, ?_⟩
  rw [evaluate_n hrun hselection hrecord hphases hitems hselected,
    countSeries_eq_map hcumulative hne hphases hselected, List.map_map]
  rfl

/-- A query for the second phase of `twoPhases`, at the steps with the conditioned stimulus. -/
def sampledOptions : Options := { Options.default with
  runLabel := some "both", selection := .index 0, phases := ["again"], steps := some (.name "cs") }

/-- The second run of `twoPhases` shows the conditioned stimulus at the first, the third and the
fifth step, and the last of these belongs to the second phase. -/
theorem exists_twoPhases :
    ∃ experiment run record, Script.twoPhaseDraft.script.simulate 7 1 = .ok experiment ∧
      experiment.selectRun sampledOptions = .ok run ∧ run.subjects[0]? = some record ∧
      (∀ label ∈ sampledOptions.phases, (run.phase? label).isSome) ∧
      Pattern.resolve run.vocabulary (.name "cs") = .ok [.elements [0]] ∧
      run.phaseLabels = ["pairing", "again"] ∧ record.phases = #[0, 0, 0, 0, 0, 1, 1] ∧
      selectedSteps run record sampledOptions = .ok [5] ∧
      occurrences false [.elements [0]] (tokens record.history.toList) = [0, 4, 8] := by
  have hseen : ((Script.twoPhaseDraft.script.simulate 7 1).toOption.any fun experiment =>
      (experiment.selectRun sampledOptions).toOption.any fun run =>
        run.subjects[0]?.any fun record =>
          run.vocabulary = PhaseText.trialVocabulary ∧ run.phaseLabels = ["pairing", "again"] ∧
            record.phases = #[0, 0, 0, 0, 0, 1, 1] ∧
            (selectedSteps run record sampledOptions).toOption = some [5] ∧
            occurrences false [.elements [0]] (tokens record.history.toList) =
              [0, 4, 8]) = true := by decide +kernel
  obtain ⟨experiment, hexperiment, hseen⟩ := (Option.any_eq_true _ _).1 hseen
  obtain ⟨run, hrun, hseen⟩ := (Option.any_eq_true _ _).1 hseen
  obtain ⟨record, hrecord, hseen⟩ := (Option.any_eq_true _ _).1 hseen
  obtain ⟨hvocabulary, hlabels, hphases, hsteps, hoccurrences⟩ := of_decide_eq_true hseen
  refine ⟨experiment, run, record, eq_ok_of_toOption_eq_some hexperiment,
    eq_ok_of_toOption_eq_some hrun, hrecord, ?_, ?_, hlabels, hphases,
    eq_ok_of_toOption_eq_some hsteps, hoccurrences⟩
  · intro label hlabel
    cases List.mem_singleton.1 hlabel
    rw [RunRecord.phase?, hlabels]
    decide
  · rw [hvocabulary]
    rfl

/-- The query for the conditioned stimulus in the second phase counts all three. -/
theorem evaluate_n_cumulative_twoPhases :
    ∃ script experiment run record, Script.parse Script.twoPhases = .ok script ∧
      script.simulate 7 1 = .ok experiment ∧ experiment.selectRun sampledOptions = .ok run ∧
      run.subjects[0]? = some record ∧ selectedSteps run record sampledOptions = .ok [5] ∧
      experiment.evaluate (.n (.name "cs") none) sampledOptions =
        .ok (.series [Nat.toFloat 3]) := by
  obtain ⟨experiment, run, record, hexperiment, hrun, hrecord, hnamed, hitems, -, -, hsteps,
    hoccurrences⟩ := exists_twoPhases
  have hsample : ∀ sample ∈ sampledOptions.steps,
      ∃ items, sample.resolve run.vocabulary = .ok items := by
    rintro _ ⟨⟩
    exact ⟨_, hitems⟩
  obtain ⟨steps, hselected, hanswer⟩ := evaluate_n_cumulative hrun rfl hrecord rfl
    (List.cons_ne_nil _ _) hnamed hitems hsample
  cases hsteps.symm.trans hselected
  refine ⟨_, experiment, run, record, Script.parse_twoPhases, hexperiment, hrun, hrecord, hsteps,
    hanswer.trans ?_⟩
  have hsampled : sampledOptions.steps.isSome = true := rfl
  have hexact : sampledOptions.exactN = false := rfl
  simp only [hsampled, hexact, hoccurrences, true_or, and_true]
  rfl

/-- A count that is restricted to a phase may count occurrences of another phase: the query for the
conditioned stimulus in the second phase of `twoPhases` counts those of the first phase, too. -/
theorem not_evaluate_n_restricted :
    ¬∀ (text : String) (script : Script) (budget : Nat) (seed : UInt64) (experiment : Experiment)
        (options : Options) (run : RunRecord) (i : Nat) (record : Record) (pattern : Pattern)
        (items : List Item) (steps : List Nat) (values : List Float),
      Script.parse text = .ok script → script.simulate budget seed = .ok experiment →
      experiment.selectRun options = .ok run → options.selection = .index i →
      run.subjects[i]? = some record → options.cumulative = true → options.phases ≠ [] →
      pattern.resolve run.vocabulary = .ok items →
      selectedSteps run record options = .ok steps →
      experiment.evaluate (.n pattern none) options = .ok (.series values) →
        values = steps.map fun k =>
          ((occurrences options.exactN items (tokens record.history.toList)).countP fun place =>
            stepOf place ≤ k ∧
              ∃ label ∈ options.phases, run.labelOf? record (stepOf place) = some label).toFloat := by
  intro h
  obtain ⟨experiment, run, record, hexperiment, hrun, hrecord, hnamed, hitems, hlabels, hphases,
    hsteps, hoccurrences⟩ := exists_twoPhases
  have hanswer := evaluate_n hrun rfl hrecord hnamed hitems hsteps
  have hclaimed := h _ _ 7 1 experiment sampledOptions run 0 record (.name "cs") _ [5] _
    Script.parse_twoPhases hexperiment hrun rfl hrecord rfl (List.cons_ne_nil _ _) hitems hsteps
    hanswer
  rw [countSeries_eq_map rfl (List.cons_ne_nil _ _) hnamed hsteps] at hclaimed
  have hexact : sampledOptions.exactN = false := rfl
  have hsampled : sampledOptions.steps.isSome = true := rfl
  simp only [hexact, hsampled, hoccurrences, RunRecord.labelOf?, Record.phaseOf?, hphases, hlabels,
    true_or, and_true] at hclaimed
  revert hclaimed
  decide

end Experiment

end Conditioning
