import Conditioning.Proofs.Phase.Compiled
import Conditioning.Proofs.Phase.Reachable

/-!
# Phases that point at nothing missing

A compiled phase names elements, lines and counts by number.  All of them exist:
the phase has a line, every line shows some declared elements, every edge leads
to a line, and the end condition has something to count
(`PhaseText.wellFormed_of_compile`).  So the current line exists in every state
that calls and resets lead to (`Phase.Reachable.current_lt`).
-/

namespace Conditioning

/-- The numbers in a phase are those of lines, elements and counts that it has. -/
structure Phase.WellFormed (phase : Phase) : Prop where
  lines_ne_nil : phase.lines ≠ []
  stimulus_ne_nil : ∀ line ∈ phase.lines, line.stimulus.elements ≠ []
  element_lt : ∀ line ∈ phase.lines, ∀ element ∈ line.stimulus.elements,
    element < phase.vocabulary.elementCount
  target_lt : ∀ line ∈ phase.lines, ∀ condition ∈ line.conditions, ∀ edge ∈ condition.edges,
    edge.target < phase.lines.length
  key_isOf : phase.ending.key.IsOf phase

namespace PhaseText

variable {vocabulary : Vocabulary} {labels : List String} {phase : String}

/-! ## Edges -/

theorem probability?_eq_some {cs : List Char} {p : Float} (h : probability? cs = some p) :
    0.0 ≤ p ∧ p ≤ 1.0 := by
  unfold probability? at h
  split at h
  next =>
    split at h
    next hunit => exact Option.some.inj h ▸ hunit
    next => cases h
  next => cases h

/-- What is known of an edge that was read. -/
def IsEdge (labels : List String) (edge : Edge) : Prop :=
  edge.target < labels.length ∧ 0.0 ≤ edge.probability ∧ edge.probability ≤ 1.0

/-- An edge with a probability leads where none of those before it does. -/
theorem weightedEdge_eq_ok {condition edgesText : String} {before : List Edge}
    {item : List Char} {edge : Edge}
    (h : weightedEdge labels phase condition edgesText before item = .ok edge) :
    IsEdge labels edge ∧ edge.target ∉ before.map Edge.target := by
  unfold weightedEdge at h
  split at h
  next => cases h
  next =>
    split at h
    next => cases h
    next =>
      simp only at h
      split at h
      next => cases h
      next target htarget =>
        split at h
        next => cases h
        next p hp =>
          split at h
          next => cases h
          next hfresh =>
            cases h
            refine ⟨⟨lt_length_of_idxOf? htarget, probability?_eq_some hp⟩, fun hmem => hfresh ?_⟩
            obtain ⟨edge, hedge, rfl⟩ := List.mem_map.1 hmem
            exact List.any_eq_true.2 ⟨edge, hedge, beq_self_eq_true _⟩

/-- An edge leads where none of those before it does, unless it is to be the only one. -/
theorem edge_eq_ok {condition edgesText : String} {alone : Bool} {before : List Edge}
    {item : List Char} {edge : Edge}
    (h : PhaseText.edge labels phase condition edgesText alone before item = .ok edge) :
    IsEdge labels edge ∧ (alone = true ∨ edge.target ∉ before.map Edge.target) := by
  unfold PhaseText.edge at h
  split at h
  next target htarget =>
    split at h
    next halone =>
      cases h
      exact ⟨⟨lt_length_of_idxOf? htarget, show (0.0 : Float) ≤ 1.0 by decide,
        show (1.0 : Float) ≤ 1.0 by decide⟩, .inl halone⟩
    next => cases h
  next => exact ⟨(weightedEdge_eq_ok h).1, .inr (weightedEdge_eq_ok h).2⟩

theorem isEdge_of_mem_edges {condition edgesText : String} {alone : Bool}
    {before result : List Edge} {items : List (List Char)}
    (h : edges labels phase condition edgesText alone before items = .ok result)
    (hbefore : ∀ edge ∈ before, IsEdge labels edge) : ∀ edge ∈ result, IsEdge labels edge := by
  induction items generalizing before with
  | nil =>
    cases h
    exact hbefore
  | cons item items ih =>
    obtain ⟨next, hnext, h⟩ := bind_eq_ok.1 h
    refine ih h fun edge hedge => ?_
    rcases List.mem_append.1 hedge with hold | hnew
    · exact hbefore edge hold
    · rw [List.mem_singleton.1 hnew]
      exact (edge_eq_ok hnext).1

/-! ## Lines -/

/-- The labels of rows are as many as the lines of the phase. -/
theorem exists_row_of_mem {text : PhaseText} {compiled : Phase}
    (h : text.compile vocabulary = .ok compiled) {line : Line} (hline : line ∈ compiled.lines) :
    ∃ labels label cs, labels.length = compiled.lines.length ∧
      PhaseText.line vocabulary labels text.label label cs = .ok line := by
  obtain ⟨rows, -, hlines, -⟩ := compile_eq_ok h
  obtain ⟨row, -, hrow⟩ := exists_of_mem_mapM hlines hline
  refine ⟨rows.map Prod.fst, row.1, row.2, ?_, hrow⟩
  rw [List.length_map, (mapM_eq_ok.1 hlines).length_eq]

theorem isEdge_of_compile {text : PhaseText} {compiled : Phase}
    (h : text.compile vocabulary = .ok compiled) {line : Line} (hline : line ∈ compiled.lines)
    {condition : Condition} (hcondition : condition ∈ line.conditions) {edge : Edge}
    (hedge : edge ∈ condition.edges) :
    edge.target < compiled.lines.length ∧ 0.0 ≤ edge.probability ∧ edge.probability ≤ 1.0 := by
  obtain ⟨labels, label, cs, hlength, hrow⟩ := exists_row_of_mem h hline
  obtain ⟨-, -, ⟨texts, -, htexts⟩, -⟩ := line_eq_ok hrow
  obtain ⟨cs, -, hcs⟩ := exists_of_mem_mapM htexts hcondition
  obtain ⟨-, edgesText, items, -, hedges⟩ := condition_eq_ok hcs
  have := isEdge_of_mem_edges hedges (by simp) edge hedge
  rwa [IsEdge, hlength] at this

theorem closes_of_compile {text : PhaseText} {compiled : Phase}
    (h : text.compile vocabulary = .ok compiled) {line : Line} (hline : line ∈ compiled.lines)
    {last : Condition} (hlast : line.conditions.getLast? = some last) : closes last = true := by
  obtain ⟨labels, label, cs, -, hrow⟩ := exists_row_of_mem h hline
  exact (line_eq_ok hrow).2.2.2 last hlast

theorem element_lt_of_eq_ok {name place : String} {element : ElementId}
    (h : vocabulary.element name place = .ok element) : element < vocabulary.elementCount := by
  unfold Vocabulary.element at h
  split at h
  next hfound =>
    cases h
    exact lt_length_of_idxOf? hfound
  next => cases h

/-- The label of a row is new: it is neither an element nor a behavior nor one of those before. -/
theorem labelled_cons_eq_ok {before rows : List String} {row : String}
    {read : List (String × List Char)}
    (h : labelled vocabulary phase before (row :: rows) = .ok read) :
    ∃ label cs rest, read = (label, cs) :: rest ∧ vocabulary.element? label = none ∧
      vocabulary.behavior? label = none ∧ label ∉ before ∧
      labelled vocabulary phase (before ++ [label]) rows = .ok rest := by
  unfold labelled at h
  simp only at h
  split at h
  next => cases h
  next =>
    split at h
    next => cases h
    next helement =>
      split at h
      next => cases h
      next hbehavior =>
        split at h
        next => cases h
        next hbefore =>
          obtain ⟨rest, hrest, h⟩ := bind_eq_ok.1 h
          cases h
          exact ⟨_, _, rest, rfl, Option.not_isSome_iff_eq_none.1 helement,
            Option.not_isSome_iff_eq_none.1 hbehavior,
            fun hmem => hbefore (List.contains_iff_mem.2 hmem), hrest⟩

theorem length_labelled {before rows : List String} {read : List (String × List Char)}
    (h : labelled vocabulary phase before rows = .ok read) : read.length = rows.length := by
  induction rows generalizing before read with
  | nil =>
    cases h
    rfl
  | cons row rows ih =>
    obtain ⟨label, cs, rest, rfl, -, -, -, hrest⟩ := labelled_cons_eq_ok h
    rw [List.length_cons, List.length_cons, ih hrest]

theorem lines_ne_nil_of_compile {text : PhaseText} {compiled : Phase}
    (h : text.compile vocabulary = .ok compiled) : compiled.lines ≠ [] := by
  obtain ⟨rows, hrows, hlines, -⟩ := compile_eq_ok h
  have hlength : compiled.lines.length = text.rows.length := by
    rw [← (mapM_eq_ok.1 hlines).length_eq, length_labelled hrows]
  intro hnil
  rw [hnil] at hlength
  have hempty : text.rows.isEmpty = true :=
    List.isEmpty_iff.2 (List.length_eq_zero_iff.1 hlength.symm)
  rw [compile, if_pos hempty] at h
  cases h

/-- The numbers in a compiled phase are those of things that exist. -/
theorem wellFormed_of_compile {text : PhaseText} {compiled : Phase}
    (h : text.compile vocabulary = .ok compiled) : compiled.WellFormed where
  lines_ne_nil := lines_ne_nil_of_compile h
  stimulus_ne_nil := by
    intro line hline hnil
    obtain ⟨labels, label, cs, -, hrow⟩ := exists_row_of_mem h hline
    obtain ⟨-, ⟨names, place, hne, hnames⟩, -⟩ := line_eq_ok hrow
    rw [hnil] at hnames
    exact hne (List.length_eq_zero_iff.1 (mapM_eq_ok.1 hnames).length_eq)
  element_lt := by
    intro line hline element helement
    obtain ⟨labels, label, cs, -, hrow⟩ := exists_row_of_mem h hline
    obtain ⟨-, ⟨names, place, -, hnames⟩, -⟩ := line_eq_ok hrow
    obtain ⟨name, -, hname⟩ := exists_of_mem_mapM hnames helement
    rw [vocabulary_of_compile h]
    exact element_lt_of_eq_ok hname
  target_lt := fun _ hline _ hcondition _ hedge => (isEdge_of_compile h hline hcondition hedge).1
  key_isOf := key_of_compile h

end PhaseText

/-! ## The current line -/

namespace Phase

variable {phase : Phase} {state : PhaseState}

theorem exists_line_of_lt (h : state.current < phase.lines.length) :
    ∃ line ∈ phase.lines, phase.lines[state.current]? = some line :=
  ⟨_, List.getElem_mem h, List.getElem?_eq_getElem h⟩

theorem WellFormed.target_lt_of_leadsTo (h : phase.WellFormed) {line target : Nat}
    {response : Option BehaviorId} {streak : Streak} {g g' : Generator}
    (hleads : leadsTo response streak (phase.conditionsAt line) g = (some target, g')) :
    target < phase.lines.length := by
  obtain ⟨condition, hcondition, -, edge, hedge, rfl⟩ := exists_condition_of_leadsTo hleads
  unfold conditionsAt at hcondition
  split at hcondition
  next hline => exact h.target_lt _ (List.mem_of_getElem? hline) condition hcondition edge hedge
  next => cases hcondition

/-- A call leaves the phase on one of its lines, also if it fails. -/
theorem WellFormed.current_next_lt (h : phase.WellFormed)
    (hcurrent : state.current < phase.lines.length) (response : Option BehaviorId)
    (g : Generator) : (phase.next state response g).state.current < phase.lines.length := by
  obtain ⟨-, e⟩ | ⟨-, g', -, e⟩ | ⟨-, target, g', hleads, e⟩ := phase.next_cases state response g
  · rw [e, present_current]
    exact hcurrent
  · rw [e]
    exact hcurrent
  · rw [e, present_current]
    exact h.target_lt_of_leadsTo hleads

theorem WellFormed.zero_lt_length (h : phase.WellFormed) : 0 < phase.lines.length :=
  List.length_pos_iff.2 h.lines_ne_nil

theorem Reachable.current_lt (hreachable : phase.Reachable state) (h : phase.WellFormed) :
    state.current < phase.lines.length := by
  induction hreachable with
  | start => exact h.zero_lt_length
  | next _ response g ih => exact h.current_next_lt ih response g
  | reset => exact h.zero_lt_length

end Phase

end Conditioning
