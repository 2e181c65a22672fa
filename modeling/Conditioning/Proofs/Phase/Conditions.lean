import Conditioning.Proofs.Double.Order
import Conditioning.Proofs.Phase.Compiled
import Conditioning.Proofs.Phase.Names
import Conditioning.Proofs.Phase.Numbers
import Conditioning.Proofs.Phase.Open

/-!
# Reading conditions

The parts of a condition in the order in which they are put together: edges, a list
of edges, a guard, the condition.  Of each part it is shown that it is solid, that
the separators of what it is a part of do not occur in it, and what is read from it
(`EdgesText.edges_eq`, `GuardText.guard_eq`, `ConditionText.condition_eq`).
-/

namespace Conditioning

namespace PhaseText

open Text (IsGap Solid beside)

/-! ## Edges -/

section

variable {vocabulary : Vocabulary} {labels : List String}

namespace EdgeText

variable {cs : List Char} {edge : Edge}

theorem solid (h : EdgeText labels cs edge) (hlabels : ∀ name ∈ labels, IsName name) :
    Solid cs := by
  obtain ⟨htarget, hgap, hbefore, hp, hunit, hafter⟩ := h
  exact (hlabels _ (List.mem_of_getElem? htarget)).solid.append_singleton rfl _

theorem not_mem (h : EdgeText labels cs edge) (hlabels : ∀ name ∈ labels, IsName name) {c : Char}
    (hc : c = ',' ∨ c = ':' ∨ c = '|') : c ∉ cs := by
  obtain ⟨htarget, hgap, hbefore, hp, hunit, hafter⟩ := h
  have hname := hlabels _ (List.mem_of_getElem? htarget)
  have hspace : Literal.isSpace c = false := by rcases hc with rfl | rfl | rfl <;> rfl
  have hmark : isMark c = true := by rcases hc with rfl | rfl | rfl <;> rfl
  have hlabel := hname.not_mem hmark
  have hprobability : c ∉ _ := hp.not_mem hspace (by rcases hc with rfl | rfl | rfl <;> rfl)
    (by rcases hc with rfl | rfl | rfl <;> decide)
  have hopen : c ≠ '(' ∧ c ≠ ')' := by rcases hc with rfl | rfl | rfl <;> decide
  simp [hlabel, hgap.not_mem hspace, hbefore.not_mem hspace, hprobability, hafter.not_mem hspace,
    hopen]

/-- What stands in parentheses is found there. -/
theorem parenthesised?_eq {label inside gap : List Char} (hlabel : '(' ∉ label)
    (hgap : IsGap gap) (hopen : '(' ∉ inside) :
    parenthesised? (label ++ (gap ++ '(' :: inside ++ [')'])) =
      some (label ++ gap, inside, []) := by
  have hfront : '(' ∉ label ++ gap := by
    rw [List.mem_append]
    exact not_or.2 ⟨hlabel, hgap.not_mem rfl⟩
  have htext : label ++ (gap ++ '(' :: inside ++ [')']) =
      (label ++ gap) ++ '(' :: (inside ++ [')']) := by simp
  have hrest : (inside ++ [')']).contains '(' = false := by simp [hopen]
  have hreverse : (inside ++ [')']).reverse = [] ++ ')' :: inside.reverse := by simp
  rw [parenthesised?, htext, Text.cut_of_not_mem hfront]
  simp only [hrest, hreverse]
  rw [Text.cut_of_not_mem (by simp)]
  simp

/-- What is read from a label with a probability, those before it being given. -/
theorem weightedEdge_of_label {label : String} {cs gap leading after : List Char} {p : Float}
    (hname : IsName label) (hgap : IsGap gap) (hleading : IsGap leading) (hp : ProbabilityText cs p)
    (hunit : 0.0 ≤ p ∧ p ≤ 1.0) (hafter : IsGap after) (phase condition edgesText : String)
    (before : List Edge) :
    weightedEdge labels phase condition edgesText before
        (label.toList ++ (gap ++ '(' :: (leading ++ (cs ++ after)) ++ [')'])) =
      match labels.idxOf? label with
      | none => .error (.unknownLine label phase)
      | some target =>
        if before.any fun edge => edge.target == target then
          .error (.invalid (.repeatedTarget label edgesText))
        else .ok ⟨p, target⟩ := by
  have hopen : '(' ∉ leading ++ (cs ++ after) := by
    have hprobability : '(' ∉ cs := hp.not_mem rfl rfl (by decide)
    simp [hleading.not_mem (c := '(') rfl, hprobability, hafter.not_mem (c := '(') rfl]
  have hinside := parenthesised?_eq (hname.not_mem rfl) hgap hopen
  have htrim : String.ofList (Text.trim (label.toList ++ gap)) = label := by
    rw [hname.solid.trim_append hgap, String.ofList_toList]
  rw [weightedEdge, hinside]
  simp only [htrim, hp.solid.trim_around hleading hafter, hp.probability?_eq hunit]
  rfl

/-- An edge is not a label. -/
theorem idxOf?_eq_none (h : EdgeText labels cs edge) {labels' : List String}
    (hlabels : ∀ name ∈ labels', IsName name) : labels'.idxOf? (String.ofList cs) = none := by
  refine List.idxOf?_eq_none_iff.2 fun hmem => ?_
  have hnot := (hlabels _ hmem).not_mem (c := '(') rfl
  rw [String.toList_ofList] at hnot
  obtain ⟨htarget, hgap, hbefore, hp, hunit, hafter⟩ := h
  simp at hnot

theorem weightedEdge_eq (h : EdgeText labels cs edge) (hlabels : ∀ name ∈ labels, IsName name)
    (hnodup : labels.Nodup) {before : List Edge} (hnew : edge.target ∉ before.map Edge.target)
    (phase condition edgesText : String) :
    weightedEdge labels phase condition edgesText before cs = .ok edge := by
  obtain ⟨htarget, hgap, hbefore, hp, hunit, hafter⟩ := h
  rename_i label target cs gap leading after p
  have hname := hlabels _ (List.mem_of_getElem? htarget)
  have hunused : (before.any fun edge => edge.target == target) = false := by
    rw [List.any_eq_false]
    intro edge' h' heq
    exact hnew (List.mem_map.2 ⟨edge', h', beq_iff_eq.1 heq⟩)
  rw [weightedEdge_of_label hname hgap hbefore hp hunit hafter]
  simp only [idxOf?_eq_some hnodup htarget, hunused]
  rfl

theorem edge_eq (h : EdgeText labels cs edge) (hlabels : ∀ name ∈ labels, IsName name)
    (hnodup : labels.Nodup) {before : List Edge} (hnew : edge.target ∉ before.map Edge.target)
    (phase condition edgesText : String) (alone : Bool) :
    PhaseText.edge labels phase condition edgesText alone before cs = .ok edge := by
  rw [PhaseText.edge, h.idxOf?_eq_none hlabels]
  exact h.weightedEdge_eq hlabels hnodup hnew phase condition edgesText

end EdgeText

/-- The edges of a list are read one after the other. -/
theorem edges_eq {items : List (List Char)} {edges : List Edge}
    (h : List.Forall₂ (EdgeText labels) items edges) (hlabels : ∀ name ∈ labels, IsName name)
    (hnodup : labels.Nodup) {before : List Edge}
    (hdistinct : ((before ++ edges).map Edge.target).Nodup)
    (phase condition edgesText : String) (alone : Bool) :
    PhaseText.edges labels phase condition edgesText alone before items =
      .ok (before ++ edges) := by
  induction h generalizing before with
  | nil => rw [List.append_nil, PhaseText.edges]
  | @cons item edge items edges hedge _ ih =>
    have hnew : edge.target ∉ before.map Edge.target := by
      rw [List.map_append, List.map_cons] at hdistinct
      have hparts := List.nodup_append.1 hdistinct
      exact fun hmem => hparts.2.2 _ hmem _ List.mem_cons_self rfl
    have hdistinct' : ((before ++ [edge] ++ edges).map Edge.target).Nodup := by
      rwa [List.append_assoc, List.singleton_append]
    rw [PhaseText.edges, hedge.edge_eq hlabels hnodup hnew]
    have hrest := ih hdistinct'
    rw [List.append_assoc, List.singleton_append] at hrest
    exact hrest

namespace EdgesText

variable {cs : List Char} {edges : List Edge}

theorem solid (h : EdgesText labels cs edges) (hlabels : ∀ name ∈ labels, IsName name) :
    Solid cs := by
  cases h with
  | label htarget => exact (hlabels _ (List.mem_of_getElem? htarget)).solid
  | list h => exact h.solid fun cs edge hedge => hedge.solid hlabels

theorem not_mem (h : EdgesText labels cs edges) (hlabels : ∀ name ∈ labels, IsName name) {c : Char}
    (hc : c = ':' ∨ c = '|') : c ∉ cs := by
  cases h with
  | label htarget =>
    refine (hlabels _ (List.mem_of_getElem? htarget)).not_mem ?_
    rcases hc with rfl | rfl <;> rfl
  | list h =>
    have hspace : Literal.isSpace c = false := by rcases hc with rfl | rfl <;> rfl
    have hcomma : c ≠ ',' := by rcases hc with rfl | rfl <;> decide
    exact h.not_mem hspace hcomma fun cs edge hedge => hedge.not_mem hlabels (.inr hc)

/-- The edges are read from the pieces between commas. -/
theorem edges_eq (h : EdgesText labels cs edges) (hlabels : ∀ name ∈ labels, IsName name)
    (hnodup : labels.Nodup) (phase condition edgesText : String) :
    let items := (Text.pieces ',' cs).map Text.trim
    PhaseText.edges labels phase condition edgesText (items.length == 1) [] items = .ok edges := by
  intro items
  cases h with
  | @label label target htarget =>
    have hname := hlabels _ (List.mem_of_getElem? htarget)
    have hitems : items = [label.toList] := by
      show (Text.pieces ',' label.toList).map Text.trim = _
      rw [Text.pieces_of_not_mem (hname.not_mem rfl), List.map_singleton, hname.solid.trim_eq]
    rw [hitems, PhaseText.edges, PhaseText.edge, String.ofList_toList,
      idxOf?_eq_some hnodup htarget]
    rfl
  | list h hdistinct =>
    have hitems : List.Forall₂ (EdgeText labels) items edges :=
      h.forall₂_pieces rfl (fun cs edge hedge =>
        ⟨hedge.solid hlabels, hedge.not_mem hlabels (.inl rfl)⟩) IsGap.nil
    have hdistinct' : (([] ++ edges).map Edge.target).Nodup := hdistinct
    exact PhaseText.edges_eq hitems hlabels hnodup hdistinct' phase condition edgesText _

end EdgesText

/-! ## Guards -/

namespace GuardText

variable {cs : List Char} {guard : Guard}

theorem solid (h : GuardText vocabulary cs guard)
    (hbehaviors : ∀ name ∈ vocabulary.behaviors, IsName name) : Solid cs := by
  cases h with
  | behavior hname hbehavior =>
    exact hname.solid (hbehaviors _ (List.mem_of_getElem? hbehavior))
  | count hcount => exact hcount.digits.solid
  | both hname hbehavior _ _ hcount =>
    exact (hname.solid (hbehaviors _ (List.mem_of_getElem? hbehavior))).beside hcount.digits.solid

theorem not_mem (h : GuardText vocabulary cs guard)
    (hbehaviors : ∀ name ∈ vocabulary.behaviors, IsName name) {c : Char}
    (hc : c = ':' ∨ c = '|') : c ∉ cs := by
  have hmark : isMark c = true := by rcases hc with rfl | rfl <;> rfl
  have hspace : Literal.isSpace c = false := by rcases hc with rfl | rfl <;> rfl
  obtain ⟨hsingle, hdouble, hequals⟩ : c ≠ '\'' ∧ c ≠ '"' ∧ c ≠ '=' := by
    rcases hc with rfl | rfl <;> decide
  cases h with
  | behavior hname hbehavior =>
    exact hname.not_mem (hbehaviors _ (List.mem_of_getElem? hbehavior)) hmark hsingle hdouble
  | count hcount => exact hcount.not_mem hmark
  | both hname hbehavior hafter hbefore hcount =>
    refine Text.not_mem_beside hspace hequals ?_ (hcount.not_mem hmark) hafter hbefore
    exact hname.not_mem (hbehaviors _ (List.mem_of_getElem? hbehavior)) hmark hsingle hdouble

theorem guard_of_name {name : String} (hname : NameText cs name) (hisName : IsName name)
    (phase : String) :
    PhaseText.guard vocabulary phase cs = (do
      let behavior ← guardBehavior vocabulary phase cs
      return ⟨some behavior, none⟩) := by
  rw [PhaseText.guard, Text.cut_eq_none (hname.not_mem hisName rfl (by decide) (by decide)),
    hname.positive?_eq_none hisName]

theorem guard_of_count {n : Nat} (hcount : CountText cs n) (phase : String) :
    PhaseText.guard vocabulary phase cs = .ok ⟨none, some n⟩ := by
  rw [PhaseText.guard, Text.cut_eq_none (hcount.not_mem rfl), hcount.positive?_eq]

theorem guard_of_both {ds after before : List Char} {name : String} {n : Nat}
    (hname : NameText cs name) (hisName : IsName name) (hafter : IsGap after)
    (hbefore : IsGap before) (hcount : CountText ds n) (phase : String) :
    PhaseText.guard vocabulary phase (beside '=' cs after before ds) = (do
      let behavior ← guardBehavior vocabulary phase cs
      return ⟨some behavior, some n⟩) := by
  rw [PhaseText.guard, Text.cut_beside rfl
    (hname.not_mem hisName rfl (by decide) (by decide)) hafter]
  simp only [(hname.solid hisName).trim_append hafter,
    hcount.digits.solid.trim_gap_append hbefore, hcount.positive?_eq]

/-- A behavior is found by its name, in quotes or not. -/
theorem guardBehavior_eq {name : String} {b : BehaviorId} (hname : NameText cs name)
    (hisName : IsName name) (hnodup : vocabulary.behaviors.Nodup)
    (hbehavior : vocabulary.behaviors[b]? = some name) (phase : String) :
    guardBehavior vocabulary phase cs = .ok b := by
  rw [guardBehavior, hname.withoutQuotes_eq hisName, String.ofList_toList, Vocabulary.behavior,
    Vocabulary.behavior?, idxOf?_eq_some hnodup hbehavior]

theorem guard_eq (h : GuardText vocabulary cs guard)
    (hbehaviors : ∀ name ∈ vocabulary.behaviors, IsName name)
    (hnodup : vocabulary.behaviors.Nodup) (phase : String) :
    PhaseText.guard vocabulary phase cs = .ok guard := by
  cases h with
  | behavior hname hbehavior =>
    have hisName := hbehaviors _ (List.mem_of_getElem? hbehavior)
    rw [guard_of_name hname hisName]
    exact bind_eq_ok.2 ⟨_, guardBehavior_eq hname hisName hnodup hbehavior phase, rfl⟩
  | count hcount => exact guard_of_count hcount phase
  | both hname hbehavior hafter hbefore hcount =>
    have hisName := hbehaviors _ (List.mem_of_getElem? hbehavior)
    rw [guard_of_both hname hisName hafter hbefore hcount]
    exact bind_eq_ok.2 ⟨_, guardBehavior_eq hname hisName hnodup hbehavior phase, rfl⟩

end GuardText

/-! ## Conditions -/

theorem bounded_eq {edgesText : String} {guard : Guard} {edges : List Edge}
    (h : (Condition.mk guard edges).rawMass ≤ 1.0 + roundingSlack) :
    bounded edgesText guard edges = .ok ⟨guard, edges⟩ := by
  rw [bounded]
  exact if_neg (Double.not_lt_of_le h)

/-- The edges are read from the whole of a text without a colon. -/
theorem condition_of_unguarded {cs : List Char} (hsolid : Solid cs) (hcolon : ':' ∉ cs)
    (phase : String) :
    let items := (Text.pieces ',' cs).map Text.trim
    PhaseText.condition vocabulary labels phase cs =
      PhaseText.edges labels phase (String.ofList cs) (String.ofList cs) (items.length == 1) []
        items >>= bounded (String.ofList cs) ⟨none, none⟩ := by
  have hsplit : splitCondition cs = (none, cs) := by
    rw [splitCondition, Text.cut_eq_none hcolon, hsolid.trim_eq]
  rw [PhaseText.condition, if_neg (by simp [List.count_eq_zero.2 hcolon])]
  simp only [hsplit]
  rfl

/-- The guard and the edges are read from the texts on both sides of a colon. -/
theorem condition_of_guarded {front after before back : List Char} (hfront : Solid front)
    (hcolon : ':' ∉ front) (hafter : IsGap after) (hbefore : IsGap before) (hback : Solid back)
    (hcolon' : ':' ∉ back) (phase : String) :
    let cs := beside ':' front after before back
    let items := (Text.pieces ',' back).map Text.trim
    PhaseText.condition vocabulary labels phase cs = (do
      let guard ← PhaseText.guard vocabulary phase front
      let edges ← PhaseText.edges labels phase (String.ofList cs) (String.ofList back)
        (items.length == 1) [] items
      bounded (String.ofList back) guard edges) := by
  intro cs items
  have hcount : cs.count ':' = 1 := by
    simp [cs, beside, List.count_eq_zero.2 hcolon, List.count_eq_zero.2 hcolon',
      List.count_eq_zero.2 (hafter.not_mem (c := ':') rfl),
      List.count_eq_zero.2 (hbefore.not_mem (c := ':') rfl)]
  have hsplit : splitCondition cs = (some front, back) := by
    rw [splitCondition, Text.cut_beside rfl hcolon hafter]
    simp only [hfront.trim_append hafter, hback.trim_gap_append hbefore]
  rw [PhaseText.condition, if_neg (by simp [hcount])]
  simp only [hsplit]
  rfl

namespace ConditionText

variable {cs : List Char} {condition : Condition}

theorem solid (h : ConditionText vocabulary labels cs condition)
    (hbehaviors : ∀ name ∈ vocabulary.behaviors, IsName name)
    (hlabels : ∀ name ∈ labels, IsName name) : Solid cs := by
  cases h with
  | unguarded hedges => exact hedges.solid hlabels
  | guarded hguard _ _ hedges => exact (hguard.solid hbehaviors).beside (hedges.solid hlabels)

theorem not_mem (h : ConditionText vocabulary labels cs condition)
    (hbehaviors : ∀ name ∈ vocabulary.behaviors, IsName name)
    (hlabels : ∀ name ∈ labels, IsName name) : '|' ∉ cs := by
  cases h with
  | unguarded hedges => exact hedges.not_mem hlabels (.inr rfl)
  | guarded hguard hafter hbefore hedges =>
    exact Text.not_mem_beside rfl (by decide) (hguard.not_mem hbehaviors (.inr rfl))
      (hedges.not_mem hlabels (.inr rfl)) hafter hbefore

theorem condition_eq (h : ConditionText vocabulary labels cs condition)
    (hbehaviors : ∀ name ∈ vocabulary.behaviors, IsName name)
    (hnodup : vocabulary.behaviors.Nodup) (hlabels : ∀ name ∈ labels, IsName name)
    (hlabelsNodup : labels.Nodup) (hmass : condition.rawMass ≤ 1.0 + roundingSlack)
    (phase : String) : PhaseText.condition vocabulary labels phase cs = .ok condition := by
  cases h with
  | unguarded hedges =>
    rw [condition_of_unguarded (hedges.solid hlabels) (hedges.not_mem hlabels (.inl rfl))]
    exact bind_eq_ok.2 ⟨_, hedges.edges_eq hlabels hlabelsNodup phase _ _, bounded_eq hmass⟩
  | guarded hguard hafter hbefore hedges =>
    rw [condition_of_guarded (hguard.solid hbehaviors) (hguard.not_mem hbehaviors (.inl rfl))
      hafter hbefore (hedges.solid hlabels) (hedges.not_mem hlabels (.inl rfl))]
    exact bind_eq_ok.2 ⟨_, hguard.guard_eq hbehaviors hnodup phase, bind_eq_ok.2
      ⟨_, hedges.edges_eq hlabels hlabelsNodup phase _ _, bounded_eq hmass⟩⟩

end ConditionText

/-- A condition whose probabilities are one together closes a line, and so does one with a guard. -/
theorem closes_of_le_rawMass {condition : Condition}
    (h : condition.guard.isOpen = true → 1.0 - roundingSlack ≤ condition.rawMass) :
    closes condition = true := by
  cases hopen : condition.guard.isOpen with
  | false => simp [closes, hopen]
  | true =>
    have hle := h hopen
    have hmass : condition.mass = 1.0 := by
      rw [Condition.rawMass] at hle
      rw [Condition.mass, Condition.totals]
      rcases List.eq_nil_or_concat' (runningTotals 0.0 condition.probabilities) with
        hnil | ⟨init, total, htotals⟩
      · rw [hnil] at hle
        exact absurd hle (by decide)
      · rw [htotals, List.getLast?_concat, Option.getD_some] at hle
        rw [htotals, closeTotals_append_singleton, List.getLast?_concat, if_pos hle]
        rfl
    have hone : ¬(1.0 : Float) < 1.0 - roundingSlack := by decide
    simp [closes, hmass, hone]

end

end PhaseText

end Conditioning
