import Conditioning.Proofs.Phase.Written
import Conditioning.Proofs.Query.Agreement
import Conditioning.Proofs.Run.Aligned
import Conditioning.Proofs.Script.InRange

/-!
# Responses that are pinned

Requirements may leave an element with one behavior.  If that is so for every element
of every stimulus that shows a certain element `e`, and the behavior is the same one,
`b`, then the response to such a stimulus cannot be anything else: the run pins `b`
to `e` (`Run.Pins`).

What a subject is shown is a stimulus of a line, and what it responds is possible for
an element of the stimulus.  So in a recorded history `b` follows `e` wherever `e` is
shown (`Run.WellFormed.response_of_pins`), the places where `e` and then `b` match
are those where `e` matches, and a query counts the two alike
(`Experiment.evaluate_n_pinned`).
-/

namespace Conditioning

/-! ## What was built -/

/-- The names of a run that was built can be told apart. -/
theorem Script.Builds.disjoint {script : Script} {run : Run} (h : script.Builds run) :
    ∀ name ∈ run.mechanism.vocabulary.elements, name ∉ run.mechanism.vocabulary.behaviors :=
  (Vocabulary.nodup_of_ofNames <| Configuration.declared_of_ofParameters <|
    Mechanism.configuration_of_ofParameters h.mechanism).2.2

/-! ## Responses -/

namespace Run

variable {run : Run} {e : ElementId} {b : BehaviorId}

/-- Nothing but the behavior is possible for the elements of a stimulus that shows the element. -/
def Pins (run : Run) (e : ElementId) (b : BehaviorId) : Prop :=
  ∀ phase ∈ run.world.phases, ∀ line ∈ phase.lines, e ∈ line.stimulus.elements →
    ∀ element ∈ line.stimulus.elements,
      ∀ behavior ∈ run.mechanism.config.response.feasibleFor element, behavior = b

/-- What is recorded was shown by a line of a phase. -/
theorem WellFormed.exists_line_of_drew (h : run.WellFormed) {apparatus : Apparatus}
    (happaratus : run.Reachable apparatus) {seed : UInt64} {k : Nat} {entry : HistoryEntry}
    (hdrew : run.Drew apparatus seed k entry) :
    ∃ phase ∈ run.world.phases, ∃ line ∈ phase.lines, line.stimulus = entry.stimulus := by
  obtain ⟨before, -, emission, hbefore, hshown, -, hstimulus, -⟩ := hdrew
  have hfits := (reachable_of_replay happaratus hbefore).world.fits
  obtain ⟨phase, -, -, line, hphase, -, -, hline, hemitted⟩ :=
    World.emits_of_next h.world.phase hfits hshown
  exact ⟨phase, List.mem_of_getElem? hphase, line, List.mem_of_getElem? hline,
    hemitted.trans hstimulus.symm⟩

/-- A recorded response to a stimulus with an element is the behavior that is pinned to it. -/
theorem WellFormed.response_of_pins (h : run.WellFormed) (hpins : run.Pins e b) {budget : Nat}
    {g g' : Generator} {result : RunRecord} (hsimulate : run.simulate budget g = .ok (result, g'))
    {record : Record} (hrecord : record ∈ result.subjects) {entry : HistoryEntry}
    (hentry : entry ∈ record.history) (hshown : e ∈ entry.stimulus.elements) :
    entry.response = b := by
  obtain ⟨seed, -, after, hsubject⟩ :=
    exists_of_mem_forall₂ (forall₂_subjects_of_simulate hsimulate) hrecord
  obtain ⟨k, hk⟩ := Array.mem_iff_getElem?.1 hentry
  have hdrew := (history_of_subject hsubject).2 k entry hk
  obtain ⟨phase, hphase, line, hline, hstimulus⟩ := h.exists_line_of_drew .setUp hdrew
  obtain ⟨element, helement, hresponse⟩ := h.feasible_of_drew .setUp hdrew
  rw [← hstimulus] at hshown helement
  exact hpins phase hphase line hline hshown element helement _ hresponse

end Run

/-! ## Counts -/

section

variable {exact : Bool} {e : ElementId} {b : BehaviorId}

/-- If a behavior follows an element wherever it is shown, the two match where the element does. -/
theorem hits_pair_eq {entries : List HistoryEntry}
    (h : ∀ entry ∈ entries, e ∈ entry.stimulus.elements → entry.response = b) :
    hits exact [.elements [e], .behavior b] (tokens entries) =
      hits exact [.elements [e]] (tokens entries) := by
  induction entries with
  | nil => rfl
  | cons entry entries ih =>
    obtain ⟨hentry, hentries⟩ := List.forall_mem_cons.1 h
    have hpair : meetsFront exact [.elements [e], .behavior b]
          (.shown entry.stimulus :: .done entry.response :: tokens entries) =
        meetsFront exact [.elements [e]]
          (.shown entry.stimulus :: .done entry.response :: tokens entries) := by
      by_cases hshown : e ∈ entry.stimulus.elements
      · simp [meetsFront, Item.meets, hentry hshown]
      · simp [meetsFront, Item.meets, Stimulus.contains, hshown]
    simp only [tokens, hits, ih hentries, hpair]
    simp [meetsFront, Item.meets]

/-- Items that occur as often at each step are counted alike. -/
theorem Query.series_congr {record : Record} {options : Options} {items items' : List Item}
    (h : stepCounts options.exactN items record = stepCounts options.exactN items' record)
    (reference : Option (List Item)) (run : RunRecord) :
    (Query.n items reference).series run options record =
      (Query.n items' reference).series run options record := by
  have hcounts (steps : List Nat) :
      countSeries record options steps items = countSeries record options steps items' := by
    simp only [countSeries, h]
  unfold series
  refine congrArg (selectedSteps run record options >>= ·) (funext fun steps => ?_)
  cases reference with
  | none => simp only [valuesAt, hcounts]
  | some others => simp only [valuesAt, hcounts]

end

/-! ## Patterns -/

/-- The name of an element and that of a behavior ask for the element and then the behavior. -/
theorem Pattern.resolve_pair {vocabulary : Vocabulary}
    (hdisjoint : ∀ name ∈ vocabulary.elements, name ∉ vocabulary.behaviors)
    {element behavior : String} {e : ElementId} (helement : vocabulary.element? element = some e)
    {b : BehaviorId} (hbehavior : vocabulary.behavior? behavior = some b) :
    Pattern.resolve vocabulary (.sequence [.name element, .name behavior]) =
      .ok [.elements [e], .behavior b] := by
  -- a name that is both would be taken for the element
  have hnone : vocabulary.element? behavior = none := by
    obtain ⟨hb, hplace, -⟩ := List.idxOf?_eq_some_iff.1 hbehavior
    refine List.idxOf?_eq_none_iff.2 fun hmem => hdisjoint behavior hmem ?_
    rw [← hplace]
    exact List.getElem_mem hb
  have hfirst : Pattern.memberItem vocabulary (.name element) = .ok (.elements [e]) := by
    rw [memberItem, nameItem, helement]
  have hsecond : Pattern.memberItem vocabulary (.name behavior) = .ok (.behavior b) := by
    rw [memberItem, nameItem, hnone, hbehavior]
  rw [resolve]
  exact mapM_eq_ok.2 (.cons hfirst (.cons hsecond .nil))

/-- The items of a reference, if there is one. -/
def Pattern.resolveReference (vocabulary : Vocabulary) :
    Option Pattern → Except Error (Option (List Item))
  | none => .ok none
  | some reference => (reference.resolve vocabulary).map some

theorem Query.ofExpression_n {run : RunRecord} {pattern : Pattern} {items : List Item}
    (hitems : pattern.resolve run.vocabulary = .ok items) (reference : Option Pattern) :
    Query.ofExpression run (.n pattern reference) =
      (Pattern.resolveReference run.vocabulary reference).map (Query.n items) := by
  rw [ofExpression, hitems]
  cases reference with
  | none => rfl
  | some reference =>
    show (reference.resolve run.vocabulary >>= fun others =>
      Except.ok (Query.n items (some others))) = _
    rw [Pattern.resolveReference]
    cases reference.resolve run.vocabulary <;> rfl

namespace Experiment

theorem evaluate_of_selectRun {experiment : Experiment} {options : Options} {run : RunRecord}
    (hselect : experiment.selectRun options = .ok run) (expression : Expression) :
    experiment.evaluate expression options =
      (Query.resolve run expression options >>= fun query => answer run query options) := by
  rw [evaluate, hselect]
  rfl

/-- Queries with the same series for every subject have the same answer. -/
theorem answer_congr {run : RunRecord} {query query' : Query} {options : Options}
    (h : ∀ record ∈ run.subjects,
      query.series run options record = query'.series run options record) :
    answer run query options = answer run query' options := by
  unfold answer
  cases options.selection with
  | index i =>
    cases hrecord : run.subjects[i]? with
    | none => simp only [hrecord]
    | some record => simp only [hrecord, h record (List.mem_of_getElem? hrecord)]
  | all => simp only [mapM_congr h]
  | average => simp only [mapM_congr h]

/-- Patterns whose items occur as often at each step of every subject are counted alike, for each
occurrence of a reference or without one. -/
theorem evaluate_n_congr {experiment : Experiment} {options : Options} {run : RunRecord}
    (hselect : experiment.selectRun options = .ok run) {pattern pattern' : Pattern}
    {items items' : List Item} (hitems : pattern.resolve run.vocabulary = .ok items)
    (hitems' : pattern'.resolve run.vocabulary = .ok items')
    (h : ∀ record ∈ run.subjects,
      stepCounts options.exactN items record = stepCounts options.exactN items' record)
    (reference : Option Pattern) :
    experiment.evaluate (.n pattern reference) options =
      experiment.evaluate (.n pattern' reference) options := by
  have hanswer (others : Option (List Item)) :
      answer run (.n items others) options = answer run (.n items' others) options :=
    answer_congr fun record hrecord => Query.series_congr (h record hrecord) others run
  rw [evaluate_of_selectRun hselect, evaluate_of_selectRun hselect, Query.resolve, Query.resolve,
    Query.ofExpression_n hitems, Query.ofExpression_n hitems']
  cases Query.checkPhases run options.phases with
  | error e => rfl
  | ok _ =>
    cases Pattern.resolveReference run.vocabulary reference with
    | error e => rfl
    | ok others => exact hanswer others

/-- If a behavior is pinned to an element, a query counts the element, and then the behavior, as it
counts the element. -/
theorem evaluate_n_pinned {script : Script} {run : Run} (hbuilds : script.Builds run)
    {budget : Nat} {g g' : Generator} {result : RunRecord}
    (hsimulate : run.simulate budget g = .ok (result, g')) {e : ElementId} {b : BehaviorId}
    (hpins : run.Pins e b) {element behavior : String}
    (helement : run.mechanism.vocabulary.element? element = some e)
    (hbehavior : run.mechanism.vocabulary.behavior? behavior = some b) {experiment : Experiment}
    {options : Options} (hselect : experiment.selectRun options = .ok result)
    (reference : Option Pattern) :
    experiment.evaluate (.n (.sequence [.name element, .name behavior]) reference) options =
      experiment.evaluate (.n (.name element) reference) options := by
  have hvocabulary : result.vocabulary = run.mechanism.vocabulary := by
    rw [Run.eq_toRecord_of_simulate hsimulate]
    rfl
  refine evaluate_n_congr hselect
    (hvocabulary ▸ Pattern.resolve_pair hbuilds.disjoint helement hbehavior)
    (hvocabulary ▸ Pattern.resolve_name helement) ?_ reference
  intro record hrecord
  rw [stepCounts, stepCounts, hits_pair_eq fun entry hentry => ?_]
  exact hbuilds.wellFormed.response_of_pins hpins hsimulate hrecord (Array.mem_toList_iff.1 hentry)

/-- A query of the second phase of `twoPhases`, at its steps with the unconditioned stimulus, for
exact matches since the value before. -/
def pinnedOptions : Options := { Options.default with
  selection := .index 0, phases := ["again"], steps := some (.name "us"), cumulative := false,
  exactSteps := true, exactN := true }

/-- The second run of `twoPhases` shows the unconditioned stimulus three times.  A press is not
possible then, and so there are three times at which it is shown and the subject waits. -/
theorem evaluate_n_pinned_twoPhases :
    ∃ (script : Script) (result : RunRecord) (g' : Generator), script.Builds Script.twoPhaseRun ∧
      Script.twoPhaseRun.simulate 7 ⟨1⟩ = .ok (result, g') ∧ Script.twoPhaseRun.Pins 1 0 ∧
      (empty.put "both" result).evaluate (.n (.sequence [.name "us", .name "wait"]) none)
        pinnedOptions = .ok (.series [Nat.toFloat 3]) := by
  have hseen : ((Script.twoPhaseRun.simulate 7 ⟨1⟩).toOption.any fun x =>
      x.1.subjects[0]?.any fun record =>
        x.1.vocabulary = PhaseText.trialVocabulary ∧ x.1.phaseLabels = ["pairing", "again"] ∧
          (selectedSteps x.1 record pinnedOptions).toOption = some [6] ∧
          countSeries record pinnedOptions [6] [.elements [1]] = [3]) = true := by decide +kernel
  obtain ⟨⟨result, g'⟩, hsimulate, hseen⟩ := (Option.any_eq_true _ _).1 hseen
  obtain ⟨record, hrecord, hseen⟩ := (Option.any_eq_true _ _).1 hseen
  obtain ⟨hvocabulary, hlabels, hsteps, hcounts⟩ := of_decide_eq_true hseen
  have hok := eq_ok_of_toOption_eq_some hsimulate
  obtain ⟨script, hbuilds⟩ := Script.exists_builds_of_parse Script.parse_twoPhases
    (List.mem_cons_of_mem _ List.mem_cons_self)
  have hselect : (empty.put "both" result).selectRun pinnedOptions = .ok result := rfl
  have hpins : Script.twoPhaseRun.Pins 1 0 := by
    simp only [Run.Pins]
    decide
  have hphases : ∀ label ∈ pinnedOptions.phases, (result.phase? label).isSome := by
    intro label hlabel
    cases List.mem_singleton.1 hlabel
    rw [RunRecord.phase?, hlabels]
    decide
  have hitems : Pattern.resolve result.vocabulary (.name "us") = .ok [.elements [1]] := by
    rw [hvocabulary]
    rfl
  have hanswer := evaluate_n hselect rfl hrecord hphases hitems (eq_ok_of_toOption_eq_some hsteps)
  rw [hcounts] at hanswer
  refine ⟨script, result, g', hbuilds, hok, hpins, ?_⟩
  exact (evaluate_n_pinned hbuilds hok hpins rfl rfl hselect none).trans hanswer

end Experiment

end Conditioning
