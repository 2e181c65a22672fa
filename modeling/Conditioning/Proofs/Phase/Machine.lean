import Conditioning.Proofs.Checked.Phase

/-!
# Phases as machines

What a phase text has to be like for its phase to run is checked while it is
read, a part at a time: labels with the rows, guards and edges with the
conditions, the key with the end.  `PhaseText.machine_of_compile` collects what
was checked.  A compiled phase is a machine all of whose parts are there, and
every state that calls and resets lead to is on one of its lines, so that calls
need no checks of their own.
-/

namespace Conditioning

/-- A condition asks for what can be there, and its edges lead to lines, each to another one. -/
structure Condition.WellFormed (condition : Condition) (phase : Phase) : Prop where
  response_lt : ∀ behavior ∈ condition.guard.response, behavior < phase.vocabulary.behaviorCount
  count_pos : ∀ n ∈ condition.guard.count, 0 < n
  edges_ne_nil : condition.edges ≠ []
  target_lt : ∀ edge ∈ condition.edges, edge.target < phase.lines.length
  nodup_targets : (condition.edges.map Edge.target).Nodup
  probability_mem : ∀ edge ∈ condition.edges, 0.0 ≤ edge.probability ∧ edge.probability ≤ 1.0

/-- A line has a label of its own, shows declared elements, and has a condition. -/
structure Line.WellFormed (line : Line) (phase : Phase) : Prop where
  label_not_element : line.label ∉ phase.vocabulary.elements
  label_not_behavior : line.label ∉ phase.vocabulary.behaviors
  stimulus : line.stimulus.Declared phase.vocabulary
  conditions_ne_nil : line.conditions ≠ []
  condition : ∀ condition ∈ line.conditions, condition.WellFormed phase

/-- All the parts of a phase are there. -/
structure Phase.IsMachine (phase : Phase) : Prop where
  lines_ne_nil : phase.lines ≠ []
  nodup_labels : (phase.lines.map Line.label).Nodup
  line : ∀ line ∈ phase.lines, line.WellFormed phase
  key_isOf : phase.ending.key.IsOf phase
  threshold_pos : 0 < phase.ending.threshold

/-- The lines that a state remembers are lines of its phase, and its tables fit the phase. -/
structure PhaseState.InRange (state : PhaseState) (phase : Phase) : Prop where
  current_lt : state.current < phase.lines.length
  previous_lt : ∀ line ∈ state.previous, line < phase.lines.length
  fits : state.Fits phase

namespace PhaseText

variable {vocabulary : Vocabulary} {labels : List String} {phase : String}

/-! ## Conditions -/

/-- A guard that was read asks for a declared behavior if it asks for one. -/
theorem guard_response_lt {cs : List Char} {guard : Guard}
    (h : PhaseText.guard vocabulary phase cs = .ok guard) {behavior : BehaviorId}
    (hbehavior : guard.response = some behavior) : behavior < vocabulary.behaviorCount := by
  have lt_of_read {text : List Char} {id : BehaviorId}
      (h : guardBehavior vocabulary phase text = .ok id) : id < vocabulary.behaviorCount := by
    unfold guardBehavior Vocabulary.behavior at h
    split at h
    next hfound =>
      cases h
      exact lt_length_of_idxOf? hfound
    next => cases h
  unfold PhaseText.guard at h
  split at h
  next =>
    split at h
    next => cases h
    next =>
      obtain ⟨id, hid, h⟩ := bind_eq_ok.1 h
      cases h
      cases hbehavior
      exact lt_of_read hid
  next =>
    split at h
    next =>
      cases h
      cases hbehavior
    next =>
      obtain ⟨id, hid, h⟩ := bind_eq_ok.1 h
      cases h
      cases hbehavior
      exact lt_of_read hid

theorem length_of_edges {condition edgesText : String} {alone : Bool} {before result : List Edge}
    {items : List (List Char)}
    (h : edges labels phase condition edgesText alone before items = .ok result) :
    result.length = before.length + items.length := by
  induction items generalizing before with
  | nil =>
    cases h
    rfl
  | cons item items ih =>
    obtain ⟨next, -, h⟩ := bind_eq_ok.1 h
    rw [ih h, List.length_append, List.length_singleton, List.length_cons]
    omega

/-- No two edges lead to the same line: a label alone is the only item, and any other item is
compared with those before it. -/
theorem nodup_targets_of_edges {condition edgesText : String} {alone : Bool}
    {before result : List Edge} {items : List (List Char)}
    (h : edges labels phase condition edgesText alone before items = .ok result)
    (halone : alone = true → before.length + items.length ≤ 1)
    (hbefore : (before.map Edge.target).Nodup) : (result.map Edge.target).Nodup := by
  induction items generalizing before with
  | nil =>
    cases h
    exact hbefore
  | cons item items ih =>
    obtain ⟨next, hnext, h⟩ := bind_eq_ok.1 h
    rw [List.length_cons] at halone
    have hfresh : next.target ∉ before.map Edge.target := by
      rcases (edge_eq_ok hnext).2 with h | h
      · have hnil : before = [] := List.length_eq_zero_iff.1 (by have := halone h; omega)
        rw [hnil]
        exact List.not_mem_nil
      · exact h
    refine ih h (fun h => ?_) ?_
    · have := halone h
      rw [List.length_append, List.length_singleton]
      omega
    · rw [List.map_append, List.map_singleton]
      refine List.nodup_append.2 ⟨hbefore, List.pairwise_singleton _ _, ?_⟩
      intro target htarget other hother heq
      exact hfresh (List.mem_singleton.1 hother ▸ heq ▸ htarget)

theorem wellFormed_of_condition {compiled : Phase} {cs : List Char} {condition : Condition}
    (h : PhaseText.condition compiled.vocabulary labels phase cs = .ok condition)
    (hlength : labels.length = compiled.lines.length) : condition.WellFormed compiled := by
  obtain ⟨hguard, edgesText, items, hitems, hedges⟩ := condition_eq_ok h
  have hedge : ∀ edge ∈ condition.edges, IsEdge labels edge :=
    isEdge_of_mem_edges hedges fun _ hedge => absurd hedge List.not_mem_nil
  exact {
    response_lt := by
      rintro behavior hbehavior
      rcases hguard with hopen | ⟨text, htext⟩
      · rw [hopen] at hbehavior
        cases hbehavior
      · exact guard_response_lt htext hbehavior
    count_pos := by
      rintro n hn
      rcases hguard with hopen | ⟨text, htext⟩
      · rw [hopen] at hn
        cases hn
      · exact guard_count_pos htext hn
    edges_ne_nil := by
      intro hnil
      have hcount := length_of_edges hedges
      rw [hnil, List.length_nil, Nat.zero_add] at hcount
      exact hitems (List.length_eq_zero_iff.1 hcount.symm)
    target_lt := fun edge hmem => hlength ▸ (hedge edge hmem).1
    nodup_targets := by
      refine nodup_targets_of_edges hedges (fun halone => ?_) List.nodup_nil
      rw [List.length_nil, Nat.zero_add]
      exact Nat.le_of_eq (beq_iff_eq.1 halone)
    probability_mem := fun edge hmem => (hedge edge hmem).2 }

/-! ## Labels -/

theorem label_new_of_labelled {before rows : List String} {read : List (String × List Char)}
    (h : labelled vocabulary phase before rows = .ok read) :
    ∀ row ∈ read, row.1 ∉ vocabulary.elements ∧ row.1 ∉ vocabulary.behaviors ∧ row.1 ∉ before := by
  induction rows generalizing before read with
  | nil =>
    cases h
    exact fun row hrow => absurd hrow List.not_mem_nil
  | cons row rows ih =>
    obtain ⟨label, cs, rest, rfl, helement, hbehavior, hbefore, hrest⟩ := labelled_cons_eq_ok h
    refine List.forall_mem_cons.2 ⟨⟨List.idxOf?_eq_none_iff.1 helement,
      List.idxOf?_eq_none_iff.1 hbehavior, hbefore⟩, fun row hrow => ?_⟩
    obtain ⟨helement, hbehavior, hbefore⟩ := ih hrest row hrow
    exact ⟨helement, hbehavior, mt (List.mem_append_left _) hbefore⟩

theorem nodup_of_labelled {before rows : List String} {read : List (String × List Char)}
    (h : labelled vocabulary phase before rows = .ok read) : (read.map Prod.fst).Nodup := by
  induction rows generalizing before read with
  | nil =>
    cases h
    exact List.nodup_nil
  | cons row rows ih =>
    obtain ⟨label, cs, rest, rfl, -, -, -, hrest⟩ := labelled_cons_eq_ok h
    refine List.nodup_cons.2 ⟨fun hmem => ?_, ih hrest⟩
    obtain ⟨row, hrow, heq⟩ := List.mem_map.1 hmem
    obtain ⟨-, -, hbefore⟩ := label_new_of_labelled hrest row hrow
    exact hbefore (heq ▸ List.mem_append_right _ (List.mem_singleton_self _))

/-- The lines of a compiled phase have the labels of its rows. -/
theorem labels_of_compile {text : PhaseText} {compiled : Phase}
    (h : text.compile vocabulary = .ok compiled) :
    ∃ rows, labelled vocabulary text.label [] text.rows = .ok rows ∧
      rows.map Prod.fst = compiled.lines.map Line.label := by
  obtain ⟨rows, hrows, hlines, -⟩ := compile_eq_ok h
  refine ⟨rows, hrows, ?_⟩
  rw [← List.forall₂_eq_eq_eq, List.forall₂_map_left_iff, List.forall₂_map_right_iff]
  exact (mapM_eq_ok.1 hlines).imp fun row line hline => (line_eq_ok hline).1.symm

/-! ## Machines -/

theorem isMachine_of_compile {text : PhaseText} {compiled : Phase}
    (h : text.compile vocabulary = .ok compiled) : compiled.IsMachine := by
  have hvocabulary := vocabulary_of_compile h
  have hwellFormed := wellFormed_of_compile h
  obtain ⟨rows, hrows, hlabels⟩ := labels_of_compile h
  exact {
    lines_ne_nil := hwellFormed.lines_ne_nil
    nodup_labels := hlabels ▸ nodup_of_labelled hrows
    line := by
      intro line hline
      obtain ⟨labels, label, cs, hlength, hread⟩ := exists_row_of_mem h hline
      obtain ⟨-, -, ⟨texts, htexts, hconditions⟩, -⟩ := line_eq_ok hread
      obtain ⟨row, hrow, hlabel⟩ := List.mem_map.1 (hlabels.symm ▸ List.mem_map_of_mem hline)
      obtain ⟨helement, hbehavior, -⟩ := label_new_of_labelled hrows row hrow
      rw [hlabel, ← hvocabulary] at helement hbehavior
      refine ⟨helement, hbehavior,
        ⟨hwellFormed.stimulus_ne_nil line hline, hwellFormed.element_lt line hline⟩, ?_, ?_⟩
      · intro hnil
        rw [hnil] at hconditions
        exact htexts (List.length_eq_zero_iff.1 (mapM_eq_ok.1 hconditions).length_eq)
      · intro condition hcondition
        obtain ⟨cs, -, hcs⟩ := exists_of_mem_mapM hconditions hcondition
        rw [← hvocabulary] at hcs
        exact wellFormed_of_condition hcs hlength
    key_isOf := hwellFormed.key_isOf
    threshold_pos := threshold_pos_of_compile h }

end PhaseText

/-! ## States -/

namespace PhaseState.InRange

variable {phase : Phase} {state : PhaseState}

theorem start (h : phase.WellFormed) : (PhaseState.start phase).InRange phase where
  current_lt := h.zero_lt_length
  previous_lt := fun _ hline => nomatch hline
  fits := .start phase

theorem reset (hstate : state.InRange phase) (h : phase.WellFormed) :
    state.reset.InRange phase where
  current_lt := h.zero_lt_length
  previous_lt := fun _ hline => nomatch hline
  fits := hstate.fits.reset

/-- A call leaves a state in range, also if it fails. -/
theorem next (hstate : state.InRange phase) (h : phase.WellFormed)
    (response : Option BehaviorId) (g : Generator) :
    (phase.next state response g).state.InRange phase where
  current_lt := h.current_next_lt hstate.current_lt response g
  previous_lt := by
    obtain ⟨-, e⟩ | ⟨-, g', -, e⟩ | ⟨-, target, g', -, e⟩ := phase.next_cases state response g
    · rw [e, Phase.present_previous]
      exact hstate.previous_lt
    · rw [e]
      exact hstate.previous_lt
    · rw [e, Phase.present_previous]
      intro line hline
      cases hline
      exact hstate.current_lt
  fits := hstate.fits.next response g

end PhaseState.InRange

theorem Phase.Reachable.inRange {phase : Phase} {state : PhaseState}
    (hstate : phase.Reachable state) (h : phase.WellFormed) : state.InRange phase := by
  induction hstate with
  | start => exact .start h
  | next _ response g ih => exact ih.next h response g
  | reset _ ih => exact ih.reset h

namespace PhaseText

/-- A compiled phase is a machine, calls and resets keep its states in range, and no call in any of
these states uses a number that is out of range. -/
theorem machine_of_compile {text : PhaseText} {vocabulary : Vocabulary} {compiled : Phase}
    (h : text.compile vocabulary = .ok compiled) :
    compiled.vocabulary = vocabulary ∧ compiled.IsMachine ∧
      ∀ state, compiled.Reachable state → state.InRange compiled ∧
        ∀ response : Option BehaviorId,
          (∀ behavior ∈ response, behavior < vocabulary.behaviorCount) →
            ∀ g, compiled.next? state response g = some (compiled.next state response g) := by
  have hwellFormed := wellFormed_of_compile h
  refine ⟨vocabulary_of_compile h, isMachine_of_compile h, fun state hstate =>
    ⟨hstate.inRange hwellFormed, fun response hresponse g => ?_⟩⟩
  rw [← vocabulary_of_compile h] at hresponse
  exact hwellFormed.next?_eq hstate hresponse g

theorem machine_of_compile_trial :
    trial.compile trialVocabulary = .ok trialPhase ∧
      trialPhase.vocabulary = trialVocabulary ∧ trialPhase.IsMachine ∧
        ∀ state, trialPhase.Reachable state → state.InRange trialPhase ∧
          ∀ response : Option BehaviorId,
            (∀ behavior ∈ response, behavior < trialVocabulary.behaviorCount) →
              ∀ g, trialPhase.next? state response g = some (trialPhase.next state response g) :=
  ⟨compile_trial, machine_of_compile compile_trial⟩

end PhaseText

end Conditioning
