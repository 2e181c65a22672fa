import Conditioning.Proofs.Phase.Lines

/-!
# Compiling what is written

Every way to write a graph is compiled to the graph (`compile_of_spells`): its lines
are read as their rows are, and its end as a key and a count.

Some graphs are written down at the end, among them one with the fraction of two
integers that are too great to be read (`compile_hugeText`).
-/

namespace Conditioning

namespace PhaseText

open Text (IsGap beside)

/-! ## The end -/

section

variable {vocabulary : Vocabulary} {labels : List String}

theorem KeyName.endKey?_eq {name : String} {key : EndKey}
    (h : KeyName vocabulary labels name key) (hnames : Names vocabulary labels) :
    endKey? vocabulary labels name = some key := by
  cases h with
  | line h => rw [endKey?, idxOf?_eq_some hnames.labels_nodup h]; rfl
  | element h =>
    have hmem := List.mem_of_getElem? h
    have hlabel : name ∉ labels := fun hlabel => (hnames.labels_fresh name hlabel).1 hmem
    rw [endKey?, List.idxOf?_eq_none_iff.2 hlabel, Vocabulary.element?,
      idxOf?_eq_some hnames.elements_nodup h]
    rfl
  | behavior h =>
    have hmem := List.mem_of_getElem? h
    have hlabel : name ∉ labels := fun hlabel => (hnames.labels_fresh name hlabel).2 hmem
    have helement : name ∉ vocabulary.elements := fun helement =>
      hnames.disjoint name helement hmem
    rw [endKey?, List.idxOf?_eq_none_iff.2 hlabel, Vocabulary.element?, List.idxOf?_eq_none_iff.2 helement,
      Vocabulary.behavior?, idxOf?_eq_some hnames.behaviors_nodup h]
    rfl

theorem KeyName.isName {name : String} {key : EndKey} (h : KeyName vocabulary labels name key)
    (hnames : Names vocabulary labels) : IsName name := by
  cases h with
  | line h => exact hnames.label_isName name (List.mem_of_getElem? h)
  | element h => exact hnames.element_isName name (List.mem_of_getElem? h)
  | behavior h => exact hnames.behavior_isName name (List.mem_of_getElem? h)

/-- The key and the count are read from the texts on both sides of the first equals sign. -/
theorem endCondition_of_key {cs ds leading after before trailing : List Char} {name : String}
    {n : Nat} (hleading : IsGap leading) (hname : NameText cs name) (hisName : IsName name)
    (hafter : IsGap after) (hbefore : IsGap before) (hcount : CountText ds n)
    (htrailing : IsGap trailing) {text : String}
    (htext : text.toList = leading ++ beside '=' cs after before ds ++ trailing) (phase : String) :
    endCondition vocabulary labels phase text =
      match endKey? vocabulary labels name with
      | some key => .ok ⟨key, n⟩
      | none => .error (.invalid (.endKey name phase)) := by
  have hequals : '=' ∉ leading ++ (cs ++ after) := by
    simp [hleading.not_mem (c := '=') rfl, hafter.not_mem (c := '=') rfl,
      hname.not_mem hisName (c := '=') rfl (by decide) (by decide)]
  have htext' : text.toList =
      (leading ++ (cs ++ after)) ++ '=' :: (before ++ (ds ++ trailing)) := by
    rw [htext]
    simp [beside]
  rw [endCondition, htext', Text.cut_of_not_mem hequals]
  cases hkey : endKey? vocabulary labels name <;>
    simp only [(hname.solid hisName).trim_around hleading hafter,
      hcount.digits.solid.trim_around hbefore htrailing, hname.withoutQuotes_eq hisName,
      String.ofList_toList, hcount.positive?_eq, hkey]

theorem EndText.endCondition_eq {text : String} {ending : EndCondition}
    (h : EndText vocabulary labels text.toList ending) (hnames : Names vocabulary labels)
    (phase : String) : endCondition vocabulary labels phase text = .ok ending := by
  generalize hcs : text.toList = cs at h
  obtain ⟨hleading, hname, hkey, hafter, hbefore, hcount, htrailing⟩ := h
  rw [endCondition_of_key hleading hname (hkey.isName hnames) hafter hbefore hcount htrailing hcs,
    hkey.endKey?_eq hnames]

end

/-! ## Declared names -/

theorem names_of_isGraph {phase : Phase} (h : phase.IsGraph) :
    Names phase.vocabulary (phase.lines.map Line.label) where
  element_isName name hname := h.isName name
    (List.mem_append_left _ (List.mem_append_left _ hname))
  behavior_isName name hname := h.isName name
    (List.mem_append_left _ (List.mem_append_right _ hname))
  label_isName name hname := h.isName name (List.mem_append_right _ hname)
  elements_nodup := (Vocabulary.nodup_of_ofNames h.declared).1
  behaviors_nodup := (Vocabulary.nodup_of_ofNames h.declared).2.1
  labels_nodup := h.labels_nodup
  disjoint := (Vocabulary.nodup_of_ofNames h.declared).2.2
  labels_fresh name hname := by
    obtain ⟨line, hline, rfl⟩ := List.mem_map.1 hname
    exact h.labels_fresh line hline

/-! ## Phases -/

/-- Every way to write a graph is compiled to the graph. -/
theorem compile_of_spells {text : PhaseText} {phase : Phase} (hgraph : phase.IsGraph)
    (h : text.Spells phase) : text.compile phase.vocabulary = .ok phase := by
  have hnames := names_of_isGraph hgraph
  have hlabels : [] ++ phase.lines.map Line.label = phase.lines.map Line.label := rfl
  obtain ⟨read, hread, hfst, hlines⟩ := exists_labelled_eq h.rows hnames hlabels
    hgraph.rawMass_le hgraph.le_rawMass text.label
  have hne : text.rows.isEmpty = false := by
    rw [List.isEmpty_eq_false_iff, ← List.length_pos_iff, h.rows.length_eq, List.length_pos_iff]
    exact hgraph.lines_ne_nil
  have hlines' : (read.mapM fun row => line phase.vocabulary (read.map Prod.fst) text.label
      row.1 row.2) = .ok phase.lines := by
    rw [hfst]
    exact mapM_eq_ok.2 hlines
  have hending : endCondition phase.vocabulary (read.map Prod.fst) text.label text.ending =
      .ok phase.ending := by
    rw [hfst]
    exact h.ending.endCondition_eq hnames text.label
  rw [compile_of_read hne hread hlines' hending, h.label_eq]

/-! ## A graph to write down -/

/-- After the conditioned stimulus comes one of the two lines, after two presses in succession the
second one. -/
def graph : Phase where
  label := "graph"
  vocabulary := trialVocabulary
  lines := [
    ⟨"CS", ⟨[0]⟩, [⟨⟨some 1, some 2⟩, [⟨1.0, 1⟩]⟩, ⟨⟨none, none⟩, [⟨0.5, 0⟩, ⟨1.0 / 2.0, 1⟩]⟩]⟩,
    ⟨"US", ⟨[0, 1]⟩, [⟨⟨none, none⟩, [⟨1.0, 0⟩]⟩]⟩]
  ending := ⟨.element 1, 2⟩

/-- One way to write it. -/
def graphText : PhaseText where
  label := "graph"
  ending := "'us' = 2"
  rows := ["CS cs| \"press\" =2 : US | CS(.5), US (1.0 / 2.0)", " US ('cs', \"us\",) |CS "]

theorem isGraph_graph : graph.IsGraph where
  lines_ne_nil := List.cons_ne_nil _ _
  declared := rfl
  isName name hname := by
    have hall : ∀ name ∈ trialVocabulary.elements ++ trialVocabulary.behaviors ++
        graph.lines.map Line.label, isIdentifier name = true := by decide
    exact isName_of_isIdentifier (hall name hname)
  labels_nodup := by decide
  labels_fresh line hline := by
    simp only [graph, List.mem_cons, List.not_mem_nil, or_false] at hline
    rcases hline with rfl | rfl <;> decide
  rawMass_le line hline condition hcondition := by
    simp only [graph, List.mem_cons, List.not_mem_nil, or_false] at hline
    rcases hline with rfl | rfl <;>
      simp only [List.mem_cons, List.not_mem_nil, or_false] at hcondition
    · rcases hcondition with rfl | rfl <;> decide +kernel
    · subst hcondition
      decide +kernel
  le_rawMass line hline last hlast := by
    simp only [graph, List.mem_cons, List.not_mem_nil, or_false] at hline
    rcases hline with rfl | rfl <;> cases hlast <;> intro _ <;> decide +kernel

/-- Digits around a point stand for the double nearest to them. -/
theorem numberText_pointed {front back : List Char} {x : Float} (hdigits : IsDigits (front ++ back))
    (hvalue : Decimal.nearestDouble (Decimal.value (front ++ back)) (0 - back.length) = x) :
    NumberText (front ++ '.' :: back) x := by
  have h := NumberText.pointed hdigits .absent
  rwa [List.append_nil, hvalue] at h

theorem numberText_half : NumberText ['.', '5'] 0.5 := by
  have hvalue : Decimal.nearestDouble 5 (-1) = 0.5 := by
    rw [Decimal.nearestDouble, Decimal.digits]
    rfl
  have hdigits : IsDigits ([] ++ ['5']) := .of_all (by decide) rfl
  exact numberText_pointed hdigits hvalue

theorem numberText_one : NumberText ['1', '.', '0'] 1.0 := by
  have hvalue : Decimal.nearestDouble 10 (-1) = 1.0 := by
    rw [Decimal.nearestDouble, Decimal.digits, Decimal.digits]
    rfl
  have hdigits : IsDigits (['1'] ++ ['0']) := .of_all (by decide) rfl
  exact numberText_pointed hdigits hvalue

theorem numberText_two : NumberText ['2', '.', '0'] 2.0 := by
  have hvalue : Decimal.nearestDouble 20 (-1) = 2.0 := by
    rw [Decimal.nearestDouble, Decimal.digits, Decimal.digits]
    rfl
  have hdigits : IsDigits (['2'] ++ ['0']) := .of_all (by decide) rfl
  exact numberText_pointed hdigits hvalue

theorem countText_two : CountText ['2'] 2 :=
  ⟨.of_all (by decide) rfl, rfl, by decide, by omega⟩

/-- The first line of the text, part by part. -/
theorem lineText_graph :
    LineText trialVocabulary ["CS", "US"]
      "CS cs| \"press\" =2 : US | CS(.5), US (1.0 / 2.0)".toList
      ⟨"CS", ⟨[0]⟩, [⟨⟨some 1, some 2⟩, [⟨1.0, 1⟩]⟩,
        ⟨⟨none, none⟩, [⟨0.5, 0⟩, ⟨1.0 / 2.0, 1⟩]⟩]⟩ := by
  have hpress : GuardText trialVocabulary _ ⟨some 1, some 2⟩ :=
    .both (.quoted (.mk (.inr rfl) "press")) rfl .space .nil countText_two
  have hguarded : ConditionText trialVocabulary ["CS", "US"] _ ⟨⟨some 1, some 2⟩, [⟨1.0, 1⟩]⟩ :=
    .guarded hpress .space .space (.label rfl)
  have hhalf : EdgeText ["CS", "US"] _ ⟨0.5, 0⟩ :=
    .mk rfl .nil .nil (.number numberText_half) (by decide +kernel) .nil
  have hfraction : ProbabilityText _ (1.0 / 2.0) :=
    .fraction numberText_one .space .space numberText_two (by decide +kernel)
  have hquotient : EdgeText ["CS", "US"] _ ⟨1.0 / 2.0, 1⟩ :=
    .mk rfl .space .nil hfraction (by decide +kernel) .nil
  have hunguarded : ConditionText trialVocabulary ["CS", "US"] _
      ⟨⟨none, none⟩, [⟨0.5, 0⟩, ⟨1.0 / 2.0, 1⟩]⟩ :=
    .unguarded (.list (.more hhalf .nil .space (.one hquotient)) (by decide))
  have hline : LineText trialVocabulary ["CS", "US"] _ ⟨"CS", ⟨[0]⟩, _⟩ :=
    .mk .nil .space (by decide) (.name (.bare "cs")) (.cons rfl .nil) .nil .space
      (.more hguarded .space .space (.one hunguarded)) .nil
  exact hline

/-- The second line, which shows a tuple. -/
theorem lineText_graph_tuple :
    LineText trialVocabulary ["CS", "US"] " US ('cs', \"us\",) |CS ".toList
      ⟨"US", ⟨[0, 1]⟩, [⟨⟨none, none⟩, [⟨1.0, 0⟩]⟩]⟩ := by
  have htuple : StimulusText _ ["cs", "us"] :=
    .tupleComma (.more (.mk (.inl rfl) "cs") .nil .space (.one (.mk (.inr rfl) "us"))) .nil .nil
      .nil
  have hopen : ConditionText trialVocabulary ["CS", "US"] _ ⟨⟨none, none⟩, [⟨1.0, 0⟩]⟩ :=
    .unguarded (.label rfl)
  have hline : LineText trialVocabulary ["CS", "US"] _ ⟨"US", ⟨[0, 1]⟩, _⟩ :=
    .mk .space .space (by decide) htuple (.cons rfl (.cons rfl .nil)) .space .nil (.one hopen)
      .space
  exact hline

theorem spells_graphText : graphText.Spells graph where
  label_eq := rfl
  rows := .cons lineText_graph (.cons lineText_graph_tuple .nil)
  ending := by
    have hending : EndText trialVocabulary ["CS", "US"] _ ⟨.element 1, 2⟩ :=
      .mk .nil (.quoted (.mk (.inl rfl) "us")) (.element rfl) .space .space countText_two .nil
    exact hending

theorem compile_graphText :
    graph.IsGraph ∧ graphText.Spells graph ∧ graphText.compile graph.vocabulary = .ok graph :=
  ⟨isGraph_graph, spells_graphText, compile_of_spells isGraph_graph spells_graphText⟩

/-- A fraction of integers that do not fit. -/
def hugeText : PhaseText where
  label := "huge"
  ending := "cs=1"
  rows := ["CS cs | CS(100000000000000000000/100000000000000000000)"]

theorem condition_huge :
    condition trialVocabulary ["CS"] "huge"
      "CS(100000000000000000000/100000000000000000000)".toList =
    .error (.invalid (.notProbability "100000000000000000000/100000000000000000000")) := by
  have hprobability : probability? ("100000000000000000000".toList ++
      '/' :: "100000000000000000000".toList) = none :=
    probability?_of_overflow (.of_all (by decide) rfl) (by decide)
  have hedge : weightedEdge ["CS"] "huge" "CS(100000000000000000000/100000000000000000000)"
      "CS(100000000000000000000/100000000000000000000)" []
      "CS(100000000000000000000/100000000000000000000)".toList =
      .error (.invalid (.notProbability "100000000000000000000/100000000000000000000")) := by
    have hparts : parenthesised? "CS(100000000000000000000/100000000000000000000)".toList =
      some ("CS".toList, "100000000000000000000/100000000000000000000".toList, []) := rfl
    have htrim : Text.trim "100000000000000000000/100000000000000000000".toList =
      "100000000000000000000/100000000000000000000".toList := rfl
    have hnone : probability? "100000000000000000000/100000000000000000000".toList = none :=
      hprobability
    rw [weightedEdge, hparts]
    simp only [htrim, hnone]
    rfl
  rw [condition, if_neg (by decide)]
  refine bind_eq_error.2 (.inr ⟨_, rfl, bind_eq_error.2 (.inl ?_)⟩)
  refine bind_eq_error.2 (.inl ?_)
  exact hedge

/-- It is refused. -/
theorem compile_hugeText :
    hugeText.compile trialVocabulary = .error (.invalid
      (.notProbability "100000000000000000000/100000000000000000000")) := by
  have hcut : Text.cut '|' "cs | CS(100000000000000000000/100000000000000000000)".toList =
      some ("cs ".toList, " CS(100000000000000000000/100000000000000000000)".toList) := rfl
  have hline : line trialVocabulary ["CS"] "huge" "CS"
      "cs | CS(100000000000000000000/100000000000000000000)".toList =
      .error (.invalid (.notProbability "100000000000000000000/100000000000000000000")) := by
    simp only [line, hcut, stimulusNames_cs]
    have hconditions : ([" CS(100000000000000000000/100000000000000000000)".toList].mapM fun text =>
        condition trialVocabulary ["CS"] "huge" (Text.trim text)) =
        .error (.invalid (.notProbability "100000000000000000000/100000000000000000000")) :=
      bind_eq_error.2 (.inl condition_huge)
    exact bind_eq_error.2 (.inr ⟨[0], rfl, bind_eq_error.2 (.inl hconditions)⟩)
  have hrows : labelled trialVocabulary "huge" [] hugeText.rows =
      .ok [("CS", "cs | CS(100000000000000000000/100000000000000000000)".toList)] := rfl
  rw [compile, if_neg (by decide)]
  exact bind_eq_error.2 (.inr ⟨_, hrows, bind_eq_error.2 (.inl (bind_eq_error.2 (.inl hline)))⟩)
end PhaseText

end Conditioning
