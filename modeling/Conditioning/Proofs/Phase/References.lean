import Conditioning.Proofs.Phase.Draft
import Conditioning.Proofs.Phase.Written

/-!
# Names that are not declared

A draft without other faults is compiled if all its references are declared, and
is otherwise refused for the first one that is not (`compile_draft`).  For every
part of a draft it is shown which references reading it looks up, in which order,
and what is known of the result (`Resolves`).

The refusal says which name is not declared, and it comes when the text is
checked.  A label without a probability is the exception: if there is no line
with that label, it is taken for an edge whose probability is missing, and the
refusal says that the text has the wrong form.
-/

namespace Conditioning

namespace PhaseText

open Text (IsGap Solid beside)

/-! ## Looking up references -/

section

variable (vocabulary : Vocabulary) (labels : List String) (phase : String)

/-- Reading something looks up references.  If they are all declared it gives a value with the
property, otherwise it is refused for the first one that is not. -/
def Resolves {α : Type} (references : List Reference) (P : α → Prop) (x : Except Error α) : Prop :=
  match references.find? fun reference => !reference.isDeclared vocabulary labels with
  | none => ∃ a, x = .ok a ∧ P a
  | some reference => ∃ error, x = .error error ∧ reference.Refused phase error

end

section

variable {vocabulary : Vocabulary} {labels : List String} {phase : String}

namespace Resolves

variable {α β : Type} {references references' : List Reference} {P : α → Prop} {Q : β → Prop}
  {x : Except Error α}

theorem ok {a : α} (h : P a) : Resolves vocabulary labels phase [] P (.ok a) := ⟨a, rfl, h⟩

theorem singleton {reference : Reference}
    (hdeclared : reference.isDeclared vocabulary labels = true → ∃ a, x = .ok a ∧ P a)
    (hundeclared : reference.isDeclared vocabulary labels = false →
      ∃ error, x = .error error ∧ reference.Refused phase error) :
    Resolves vocabulary labels phase [reference] P x := by
  rw [Resolves, List.find?_singleton]
  cases h : reference.isDeclared vocabulary labels with
  | true => exact hdeclared h
  | false => exact hundeclared h

theorem imp (h : Resolves vocabulary labels phase references P x) {P' : α → Prop}
    (himp : ∀ a, P a → P' a) : Resolves vocabulary labels phase references P' x := by
  rw [Resolves] at *
  cases hfirst : references.find? _ with
  | none =>
    rw [hfirst] at h
    obtain ⟨a, hx, ha⟩ := h
    exact ⟨a, hx, himp a ha⟩
  | some reference =>
    rw [hfirst] at h
    exact h

/-- The references of two steps are looked up one after the other. -/
theorem bind (h : Resolves vocabulary labels phase references P x) {f : α → Except Error β}
    (hf : ∀ a, P a → Resolves vocabulary labels phase references' Q (f a)) :
    Resolves vocabulary labels phase (references ++ references') Q (x >>= f) := by
  rw [Resolves] at h
  rw [Resolves, List.find?_append]
  cases hfirst : references.find? _ with
  | none =>
    rw [hfirst] at h
    obtain ⟨a, rfl, ha⟩ := h
    exact hf a ha
  | some reference =>
    rw [hfirst] at h
    obtain ⟨error, rfl, herror⟩ := h
    exact ⟨error, rfl, herror⟩

/-- A last step that looks up nothing. -/
theorem bind_ok (h : Resolves vocabulary labels phase references P x) {f : α → Except Error β}
    (hf : ∀ a, P a → ∃ b, f a = .ok b ∧ Q b) :
    Resolves vocabulary labels phase references Q (x >>= f) := by
  have hbind : Resolves vocabulary labels phase (references ++ []) Q (x >>= f) := h.bind hf
  rwa [List.append_nil] at hbind

/-- The members of a list are looked up in order. -/
theorem mapM {γ : Type} {f : γ → Except Error α} {references : β → List Reference}
    {P : β → α → Prop} {texts : List γ} {drafts : List β}
    (h : List.Forall₂ (fun text draft =>
      Resolves vocabulary labels phase (references draft) (P draft) (f text)) texts drafts) :
    Resolves vocabulary labels phase (drafts.flatMap references) (List.Forall₂ P drafts)
      (texts.mapM f) := by
  induction h with
  | nil =>
    rw [List.mapM_nil]
    exact ok .nil
  | cons hfirst _ ih =>
    rw [List.mapM_cons, List.flatMap_cons]
    exact hfirst.bind fun a ha => ih.bind_ok fun as has => ⟨_, rfl, .cons ha has⟩

end Resolves

theorem resolves_element (name place : String) :
    Resolves vocabulary labels phase [.element name] (fun _ => True)
      (vocabulary.element name place) := by
  refine .singleton (fun h => ?_) (fun h => ?_)
  · obtain ⟨e, he, -⟩ := exists_idxOf?_eq h
    exact ⟨e, by rw [Vocabulary.element, Vocabulary.element?, he], trivial⟩
  · refine ⟨_, ?_, .element name place⟩
    rw [Vocabulary.element, Vocabulary.element?, idxOf?_eq_none_of_contains h]

/-! ## Guards -/

theorem resolves_guardBehavior {cs : List Char} {name : String} (h : NameText cs name)
    (hname : IsName name) :
    Resolves vocabulary labels phase [.behavior name] (fun _ => True)
      (guardBehavior vocabulary phase cs) := by
  rw [guardBehavior, h.withoutQuotes_eq hname, String.ofList_toList]
  refine .singleton (fun h => ?_) (fun h => ?_)
  · obtain ⟨b, hb, -⟩ := exists_idxOf?_eq h
    exact ⟨b, by rw [Vocabulary.behavior, Vocabulary.behavior?, hb], trivial⟩
  · refine ⟨_, ?_, .behavior name s!"phase '{phase}'"⟩
    rw [Vocabulary.behavior, Vocabulary.behavior?, idxOf?_eq_none_of_contains h]

namespace DraftGuardText

variable {cs : List Char} {behavior : Option String} {count : Option Nat}

theorem solid (h : DraftGuardText cs behavior count) : Solid cs := h.text.solid h.isName

theorem not_mem (h : DraftGuardText cs behavior count) {c : Char} (hc : c = ':' ∨ c = '|') :
    c ∉ cs :=
  h.text.not_mem h.isName hc

theorem resolves_guard (h : DraftGuardText cs behavior count) :
    Resolves vocabulary labels phase (behavior.toList.map .behavior)
      (fun guard => guard.isOpen = (behavior.isNone && count.isNone))
      (PhaseText.guard vocabulary phase cs) := by
  obtain ⟨hname, htext⟩ := h
  cases behavior with
  | none =>
    cases htext with
    | count hcount =>
      rw [GuardText.guard_of_count hcount]
      exact .ok rfl
  | some name =>
    have hname := hname name List.mem_cons_self
    cases htext with
    | behavior htext hbehavior =>
      cases hbehavior
      rw [GuardText.guard_of_name htext hname]
      exact (resolves_guardBehavior htext hname).bind_ok fun b _ => ⟨_, rfl, rfl⟩
    | both htext hbehavior hafter hbefore hcount =>
      cases hbehavior
      rw [GuardText.guard_of_both htext hname hafter hbefore hcount]
      exact (resolves_guardBehavior htext hname).bind_ok fun b _ => ⟨_, rfl, rfl⟩

end DraftGuardText

/-! ## Edges -/

/-- A text without a parenthesis is no edge with a probability. -/
theorem weightedEdge_eq_error {condition edgesText : String} {before : List Edge}
    {item : List Char} (h : '(' ∉ item) :
    weightedEdge labels phase condition edgesText before item =
      .error (.malformed (.badEdge condition)) := by
  rw [weightedEdge, parenthesised?, Text.cut_eq_none h]

/-- An edge read from a label with a probability. -/
def IsItem (labels : List String) (item : String × Float) (edge : Edge) : Prop :=
  labels[edge.target]? = some item.1 ∧ edge.probability = item.2

namespace DraftEdgeText

variable {cs : List Char} {item : String × Float}

theorem isName_singleton (h : DraftEdgeText cs item) : ∀ name ∈ [item.1], IsName name :=
  fun _ hmem => List.mem_singleton.1 hmem ▸ h.isName

theorem solid (h : DraftEdgeText cs item) : Solid cs := h.text.solid h.isName_singleton

theorem not_mem (h : DraftEdgeText cs item) {c : Char} (hc : c = ',' ∨ c = ':' ∨ c = '|') :
    c ∉ cs :=
  h.text.not_mem h.isName_singleton hc

/-- The label is looked up once the parentheses are taken apart. -/
theorem resolves_edge (h : DraftEdgeText cs item) (hlabels : ∀ name ∈ labels, IsName name)
    {before : List Edge} (hnew : ∀ edge ∈ before, labels[edge.target]? ≠ some item.1)
    (condition edgesText : String) (alone : Bool) :
    Resolves vocabulary labels phase [.target item.1] (IsItem labels item)
      (PhaseText.edge labels phase condition edgesText alone before cs) := by
  rw [PhaseText.edge, h.text.idxOf?_eq_none hlabels]
  obtain ⟨hname, htext⟩ := h
  obtain ⟨label, p⟩ := item
  cases htext with
  | mk htarget hgap hbefore hp hunit hafter =>
    cases htarget
    simp only [EdgeText.weightedEdge_of_label hname hgap hbefore hp hunit hafter]
    refine .singleton (fun hdeclared => ?_) (fun hundeclared => ?_)
    · obtain ⟨target, hfound, htarget⟩ := exists_idxOf?_eq hdeclared
      have hunused : (before.any fun edge => edge.target == target) = false := by
        rw [List.any_eq_false]
        intro edge hedge heq
        exact hnew edge hedge (beq_iff_eq.1 heq ▸ htarget)
      rw [hfound]
      exact ⟨⟨p, target⟩, if_neg (by simp [hunused]), htarget, rfl⟩
    · rw [idxOf?_eq_none_of_contains hundeclared]
      exact ⟨_, rfl, .target label⟩

end DraftEdgeText

/-- The edges of a list are looked up in order, after those already read. -/
theorem resolves_edges {texts : List (List Char)} {items done : List (String × Float)}
    {before : List Edge} (h : List.Forall₂ DraftEdgeText texts items)
    (hbefore : List.Forall₂ (IsItem labels) done before) (hlabels : ∀ name ∈ labels, IsName name)
    (hdistinct : ((done ++ items).map Prod.fst).Nodup)
    (condition edgesText : String) (alone : Bool) :
    Resolves vocabulary labels phase (items.map fun item => .target item.1)
      (List.Forall₂ (IsItem labels) (done ++ items))
      (PhaseText.edges labels phase condition edgesText alone before texts) := by
  induction h generalizing done before with
  | nil =>
    rw [List.append_nil, PhaseText.edges]
    exact .ok hbefore
  | @cons text item texts items htext _ ih =>
    have hnew : ∀ edge ∈ before, labels[edge.target]? ≠ some item.1 := by
      intro edge hedge heq
      obtain ⟨item', hitem', hlabel, -⟩ := exists_of_mem_forall₂ hbefore hedge
      rw [List.map_append, List.map_cons] at hdistinct
      have hsame : item'.1 = item.1 := Option.some.inj (hlabel.symm.trans heq)
      exact (List.nodup_append.1 hdistinct).2.2 _ (List.mem_map_of_mem hitem') _
        List.mem_cons_self hsame
    rw [PhaseText.edges]
    refine (htext.resolves_edge hlabels hnew condition edgesText alone).bind
      fun edge hedge => ?_
    rw [List.append_cons] at hdistinct ⊢
    exact ih (List.rel_append hbefore (.cons hedge .nil)) hdistinct

theorem map_probability_eq {items : List (String × Float)} {edges : List Edge}
    (h : List.Forall₂ (IsItem labels) items edges) :
    edges.map Edge.probability = items.map Prod.snd := by
  induction h with
  | nil => rfl
  | cons hitem _ ih => rw [List.map_cons, List.map_cons, hitem.2, ih]

namespace TargetsText

variable {cs : List Char} {targets : Targets}

theorem solid (h : TargetsText cs targets) : Solid cs := by
  cases h with
  | alone hlabel => exact hlabel.solid
  | weighted h => exact h.solid fun _ _ hitem => hitem.solid

theorem not_mem (h : TargetsText cs targets) {c : Char} (hc : c = ':' ∨ c = '|') : c ∉ cs := by
  cases h with
  | alone hlabel =>
    refine hlabel.not_mem ?_
    rcases hc with rfl | rfl <;> rfl
  | weighted h =>
    have hspace : Literal.isSpace c = false := by rcases hc with rfl | rfl <;> rfl
    have hcomma : c ≠ ',' := by rcases hc with rfl | rfl <;> decide
    exact h.not_mem hspace hcomma fun _ _ hitem => hitem.not_mem (.inr hc)

/-- The edges are looked up from the pieces between commas. -/
theorem resolves_edges (h : TargetsText cs targets) (hlabels : ∀ name ∈ labels, IsName name)
    (hdistinct : targets.labels.Nodup) (condition edgesText : String) :
    let items := (Text.pieces ',' cs).map Text.trim
    Resolves vocabulary labels phase targets.references
      (fun edges => edges.map Edge.probability = targets.probabilities)
      (PhaseText.edges labels phase condition edgesText (items.length == 1) [] items) := by
  intro items
  cases h with
  | @alone label hlabel =>
    have hitems : items = [label.toList] := by
      show (Text.pieces ',' label.toList).map Text.trim = _
      rw [Text.pieces_of_not_mem (hlabel.not_mem rfl), List.map_singleton, hlabel.solid.trim_eq]
    rw [hitems, PhaseText.edges]
    refine Resolves.bind_ok (P := fun edge => edge.probability = 1.0) ?_ fun edge hedge =>
      ⟨_, rfl, by simp [Targets.probabilities, hedge]⟩
    rw [PhaseText.edge, String.ofList_toList]
    refine .singleton (fun hdeclared => ?_) (fun hundeclared => ?_)
    · obtain ⟨target, htarget, -⟩ := exists_idxOf?_eq hdeclared
      rw [htarget]
      exact ⟨_, rfl, rfl⟩
    · rw [idxOf?_eq_none_of_contains hundeclared]
      exact ⟨_, weightedEdge_eq_error (hlabel.not_mem rfl), .bareTarget label condition⟩
  | @weighted _ listed h =>
    have hitems : List.Forall₂ DraftEdgeText items listed :=
      h.forall₂_pieces rfl (fun _ _ hitem => ⟨hitem.solid, hitem.not_mem (.inl rfl)⟩) IsGap.nil
    exact (PhaseText.resolves_edges hitems .nil hlabels hdistinct condition edgesText _).imp
      fun edges hedges => map_probability_eq hedges

end TargetsText

/-! ## Conditions -/

/-- What is kept of a condition when its names are looked up. -/
structure IsCondition (draft : DraftCondition) (condition : Condition) : Prop where
  isOpen_eq : condition.guard.isOpen = draft.isOpen
  rawMass_eq : condition.rawMass = draft.rawMass

namespace DraftConditionText

variable {cs : List Char} {draft : DraftCondition}

theorem solid (h : DraftConditionText cs draft) : Solid cs := by
  cases h with
  | unguarded htargets => exact htargets.solid
  | guarded hguard _ _ htargets => exact hguard.solid.beside htargets.solid

theorem not_mem (h : DraftConditionText cs draft) : '|' ∉ cs := by
  cases h with
  | unguarded htargets => exact htargets.not_mem (.inr rfl)
  | guarded hguard hafter hbefore htargets =>
    exact Text.not_mem_beside rfl (by decide) (hguard.not_mem (.inr rfl))
      (htargets.not_mem (.inr rfl)) hafter hbefore

theorem resolves_bounded {edgesText : String} {guard : Guard} {x : Except Error (List Edge)}
    (hguard : guard.isOpen = draft.isOpen)
    (h : Resolves vocabulary labels phase draft.targets.references
      (fun edges => edges.map Edge.probability = draft.targets.probabilities) x)
    (hmass : draft.rawMass ≤ 1.0 + roundingSlack) :
    Resolves vocabulary labels phase draft.targets.references (IsCondition draft)
      (x >>= bounded edgesText guard) := by
  refine h.bind_ok fun edges hedges => ?_
  have hmass' : (Condition.mk guard edges).rawMass = draft.rawMass := by
    rw [Condition.rawMass, Condition.probabilities, hedges]
    rfl
  exact ⟨_, bounded_eq (hmass' ▸ hmass), hguard, hmass'⟩

theorem resolves_condition (h : DraftConditionText cs draft)
    (hlabels : ∀ name ∈ labels, IsName name) (hdistinct : draft.targets.labels.Nodup)
    (hmass : draft.rawMass ≤ 1.0 + roundingSlack) :
    Resolves vocabulary labels phase draft.references (IsCondition draft)
      (PhaseText.condition vocabulary labels phase cs) := by
  cases h with
  | unguarded htargets =>
    rw [condition_of_unguarded htargets.solid (htargets.not_mem (.inl rfl))]
    exact resolves_bounded rfl (htargets.resolves_edges hlabels hdistinct _ _) hmass
  | guarded hguard hafter hbefore htargets =>
    rw [condition_of_guarded hguard.solid (hguard.not_mem (.inl rfl)) hafter hbefore
      htargets.solid (htargets.not_mem (.inl rfl))]
    exact hguard.resolves_guard.bind fun guard hopen =>
      resolves_bounded hopen (htargets.resolves_edges hlabels hdistinct _ _) hmass

end DraftConditionText

/-! ## Lines -/

namespace DraftLineText

variable {row : List Char} {line : DraftLine}

theorem label_isName (h : DraftLineText row line) : IsName line.label := by
  cases h with
  | mk hlabel => exact hlabel

/-- The references of a line are looked up in what follows its label. -/
theorem exists_resolves_line (h : DraftLineText row line) (hlabels : ∀ name ∈ labels, IsName name)
    (hdistinct : ∀ condition ∈ line.conditions, condition.targets.labels.Nodup)
    (hmass : ∀ condition ∈ line.conditions, condition.rawMass ≤ 1.0 + roundingSlack)
    (hlast : ∀ last, line.conditions.getLast? = some last → last.isOpen = true →
      1.0 - roundingSlack ≤ last.rawMass) :
    ∃ rest, Text.firstWord (Text.trim row) = (line.label.toList, rest) ∧ rest ≠ [] ∧
      Resolves vocabulary labels phase line.references (fun _ => True)
        (PhaseText.line vocabulary labels phase line.label rest) := by
  obtain ⟨hlabel, hnames, hleading, hgap, hne, hstimulus, hafter, hbefore, hconditions,
    htrailing⟩ := h
  rename_i label names conditions cs ds leading gap after before trailing
  have hrest : Solid (beside '|' cs after before ds) :=
    (hstimulus.solid hnames).beside (hconditions.solid fun _ _ h => h.solid)
  have helements (place : String) : Resolves vocabulary labels phase (names.map .element)
      (fun _ => True) (names.mapM fun name => vocabulary.element name place) := by
    have hall : List.Forall₂ (fun name name' => Resolves vocabulary labels phase
        [.element name'] (fun _ => True) (vocabulary.element name place)) names names :=
      List.forall₂_same.2 fun name _ => resolves_element name place
    rw [List.map_eq_flatMap]
    exact (Resolves.mapM (P := fun _ _ => True) hall).imp fun _ _ => trivial
  have hread : Resolves vocabulary labels phase (conditions.flatMap DraftCondition.references)
      (List.Forall₂ IsCondition conditions)
      ((Text.pieces '|' (before ++ ds)).mapM fun text =>
        PhaseText.condition vocabulary labels phase (Text.trim text)) := by
    have hpieces : List.Forall₂ (fun text condition =>
        Resolves vocabulary labels phase condition.references (IsCondition condition)
          (PhaseText.condition vocabulary labels phase text))
        ((Text.pieces '|' (before ++ ds)).map Text.trim) conditions :=
      forall₂_of_mem
        (hconditions.forall₂_pieces rfl (fun _ _ h => ⟨h.solid, h.not_mem⟩) hbefore)
        fun text condition hmem h => h.resolves_condition hlabels (hdistinct condition hmem)
          (hmass condition hmem)
    exact .mapM (List.forall₂_map_left_iff.1 hpieces)
  refine ⟨beside '|' cs after before ds,
    firstWord_of_label hlabel hleading hgap hne hrest htrailing, hrest.ne_nil, ?_⟩
  rw [line_of_stimulus hstimulus hnames hafter]
  refine (helements _).bind fun elements _ => hread.bind_ok fun read hall => ?_
  refine ⟨_, finish_eq_ok fun last hgetLast => ?_, trivial⟩
  obtain ⟨draft, hdraft, hopen, hkept⟩ := exists_getLast?_of_forall₂ hall hgetLast
  refine closes_of_le_rawMass fun h => ?_
  rw [hkept]
  exact hlast draft hdraft (hopen ▸ h)

end DraftLineText

/-! ## The end -/

/-- A key counts something just if it is declared. -/
theorem isSome_endKey? (key : String) :
    (endKey? vocabulary labels key).isSome =
      (Reference.key key).isDeclared vocabulary labels := by
  have hfound (names : List String) : (names.idxOf? key).isSome = names.contains key := by
    cases h : names.contains key with
    | true =>
      obtain ⟨i, hi, -⟩ := exists_idxOf?_eq h
      rw [hi, Option.isSome_some]
    | false => rw [idxOf?_eq_none_of_contains h, Option.isSome_none]
  simp only [endKey?, Option.isSome_or, Option.isSome_map, Vocabulary.element?,
    Vocabulary.behavior?, hfound, Reference.isDeclared, Bool.or_assoc]

theorem DraftEndText.resolves_endCondition {text key : String} {threshold : Nat}
    (h : DraftEndText text.toList key threshold) :
    Resolves vocabulary labels phase [.key key] (fun _ => True)
      (endCondition vocabulary labels phase text) := by
  obtain ⟨hisName, htext⟩ := h
  generalize hcs : text.toList = cs at htext
  cases htext with
  | mk hleading hname hkey hafter hbefore hcount htrailing =>
    cases hkey with
    | element hkey =>
      cases hkey
      rw [endCondition_of_key hleading hname hisName hafter hbefore hcount htrailing hcs]
      have hfound : (endKey? vocabulary labels key).isSome = _ := isSome_endKey? key
      refine .singleton (fun hdeclared => ?_) (fun hundeclared => ?_)
      · rw [hdeclared] at hfound
        obtain ⟨key, hkey⟩ := Option.isSome_iff_exists.1 hfound
        rw [hkey]
        exact ⟨_, rfl, trivial⟩
      · rw [hundeclared, Option.isSome_eq_false_iff, Option.isNone_iff_eq_none] at hfound
        rw [hfound]
        exact ⟨_, rfl, .key key⟩

end

/-! ## Phases -/

variable {text : PhaseText} {draft : PhaseDraft} {vocabulary : Vocabulary}

theorem label_isName_of_writes (h : text.Writes draft) :
    ∀ label ∈ draft.labels, IsName label := by
  intro label hlabel
  obtain ⟨line, hline, rfl⟩ := List.mem_map.1 hlabel
  obtain ⟨row, -, hrow⟩ := exists_of_mem_forall₂ h.rows hline
  exact hrow.label_isName

theorem resolves_compile (hfaultless : draft.Faultless vocabulary) (h : text.Writes draft) :
    Resolves vocabulary draft.labels text.label draft.references (fun _ => True)
      (text.compile vocabulary) := by
  have hlabels := label_isName_of_writes h
  have hrows : List.Forall₂ (fun row line => ∃ rest,
      Text.firstWord (Text.trim row.toList) = (line.label.toList, rest) ∧ rest ≠ [] ∧
        Resolves vocabulary draft.labels text.label line.references (fun _ => True)
          (PhaseText.line vocabulary draft.labels text.label line.label rest))
      text.rows draft.lines :=
    forall₂_of_mem h.rows fun row line hline hrow =>
      hrow.exists_resolves_line hlabels (hfaultless.targets_nodup line hline)
        (hfaultless.rawMass_le line hline) (hfaultless.le_rawMass line hline)
  have hnodup : ([] ++ draft.lines.map DraftLine.label).Nodup := hfaultless.labels_nodup
  obtain ⟨read, hread, hfst, hlines⟩ := exists_labelled hrows hnodup
    (fun line hline => hfaultless.labels_fresh _ (List.mem_map_of_mem hline)) text.label
  have hne : ¬text.rows.isEmpty = true := by
    rw [List.isEmpty_iff, ← List.length_eq_zero_iff, h.rows.length_eq, List.length_eq_zero_iff]
    exact hfaultless.lines_ne_nil
  have hlines' : Resolves vocabulary draft.labels text.label
      (draft.lines.flatMap DraftLine.references) (fun _ => True)
      (read.mapM fun row => line vocabulary (read.map Prod.fst) text.label row.1 row.2) := by
    rw [hfst]
    refine (Resolves.mapM (P := fun _ _ => True) (hlines.imp fun row line hrow => ?_)).imp
      fun _ _ => trivial
    rw [hrow.1]
    exact hrow.2
  have hending : Resolves vocabulary draft.labels text.label [.key draft.key] (fun _ => True)
      (endCondition vocabulary (read.map Prod.fst) text.label text.ending) := by
    rw [hfst]
    exact h.ending.resolves_endCondition
  rw [compile, if_neg hne, hread]
  exact hlines'.bind fun lines _ => hending.bind_ok fun ending _ => ⟨_, rfl, trivial⟩

/-- A draft whose references are all declared is compiled.  Otherwise it is refused for the first
reference that is not declared, when the text is checked or, if that is the label of a line without
a probability, when it is read. -/
theorem compile_draft (hfaultless : draft.Faultless vocabulary) (h : text.Writes draft) :
    (draft.undeclared? vocabulary = none → ∃ phase, text.compile vocabulary = .ok phase) ∧
    ∀ reference, draft.undeclared? vocabulary = some reference →
      ∃ error, text.compile vocabulary = .error error ∧ reference.Refused text.label error ∧
        error.stage = reference.stage := by
  have hresolves := resolves_compile hfaultless h
  rw [Resolves, ← PhaseDraft.undeclared?] at hresolves
  constructor
  · intro hnone
    rw [hnone] at hresolves
    obtain ⟨phase, hphase, -⟩ := hresolves
    exact ⟨phase, hphase⟩
  · intro reference hsome
    rw [hsome] at hresolves
    obtain ⟨error, herror, hrefused⟩ := hresolves
    exact ⟨error, herror, hrefused, hrefused.stage_eq⟩

/-! ## A line that leads nowhere -/

/-- The only line leads to one that is not there. -/
def looseDraft : PhaseDraft where
  lines := [⟨"CS", ["cs"], [⟨none, none, .alone "US"⟩]⟩]
  key := "cs"
  threshold := 1

/-- One way to write it. -/
def looseText : PhaseText where
  label := "loose"
  ending := "cs=1"
  rows := ["CS cs | US"]

theorem faultless_loose (vocabulary : Vocabulary)
    (h : "CS" ∉ vocabulary.elements ∧ "CS" ∉ vocabulary.behaviors) :
    looseDraft.Faultless vocabulary where
  lines_ne_nil := List.cons_ne_nil _ _
  labels_nodup := by decide
  labels_fresh label hlabel := List.mem_singleton.1 hlabel ▸ h
  targets_nodup line hline condition hcondition := by
    cases List.mem_singleton.1 hline
    cases List.mem_singleton.1 hcondition
    decide
  rawMass_le line hline condition hcondition := by
    cases List.mem_singleton.1 hline
    cases List.mem_singleton.1 hcondition
    decide +kernel
  le_rawMass line hline last hlast _ := by
    cases List.mem_singleton.1 hline
    cases hlast
    decide +kernel

theorem writes_loose : looseText.Writes looseDraft where
  rows := by
    have hus : DraftConditionText _ ⟨none, none, .alone "US"⟩ :=
      .unguarded (.alone (isName_of_isIdentifier (by decide)))
    have hline : DraftLineText _ ⟨"CS", ["cs"], [⟨none, none, .alone "US"⟩]⟩ :=
      .mk (isName_of_isIdentifier (by decide))
        (fun name h => List.mem_singleton.1 h ▸ isName_of_isIdentifier (by decide))
        .nil .space (by decide) (.name (.bare "cs")) .space .space (.one hus) .nil
    exact .cons hline .nil
  ending := by
    have hone : CountText ['1'] 1 := ⟨.of_all (by decide) rfl, rfl, by decide, by omega⟩
    have hending : EndText ⟨["cs"], []⟩ [] _ ⟨.element 0, 1⟩ :=
      .mk .nil (.bare "cs") (.element rfl) .nil .nil hone .nil
    exact ⟨isName_of_isIdentifier (by decide), hending⟩

/-- The line is missed when the text is read, but not before the element is looked up. -/
theorem compile_draft_loose :
    looseText.Writes looseDraft ∧ looseDraft.Faultless trialVocabulary ∧
      looseDraft.undeclared? trialVocabulary = some (.bareTarget "US") ∧
      (∃ condition,
        looseText.compile trialVocabulary = .error (.malformed (.badEdge condition))) ∧
      looseDraft.Faultless ⟨["us"], ["wait"]⟩ ∧
      looseDraft.undeclared? ⟨["us"], ["wait"]⟩ = some (.element "cs") ∧
      ∃ place, looseText.compile ⟨["us"], ["wait"]⟩ = .error (.unknownElement "cs" place) := by
  have htrial := faultless_loose trialVocabulary (by decide)
  have hother := faultless_loose ⟨["us"], ["wait"]⟩ (by decide)
  refine ⟨writes_loose, htrial, rfl, ?_, hother, rfl, ?_⟩
  · obtain ⟨error, herror, hrefused, -⟩ := (compile_draft htrial writes_loose).2 _ rfl
    cases hrefused with
    | bareTarget _ condition => exact ⟨condition, herror⟩
  · obtain ⟨error, herror, hrefused, -⟩ := (compile_draft hother writes_loose).2 _ rfl
    cases hrefused with
    | element _ place => exact ⟨place, herror⟩

/-- So not every name that is not declared is found when the text is checked. -/
theorem not_compile_draft_validation :
    ¬∀ (vocabulary : Vocabulary) (text : PhaseText) (draft : PhaseDraft),
      draft.Faultless vocabulary → text.Writes draft →
      (∀ label ∈ draft.labels, isIdentifier label = true) →
      (∀ reference ∈ draft.references, isIdentifier reference.name = true) →
      (∃ reference ∈ draft.references, reference.isDeclared vocabulary draft.labels = false) →
      ∃ error, text.compile vocabulary = .error error ∧ error.stage = .validation := by
  intro h
  have htrial := faultless_loose trialVocabulary (by decide)
  obtain ⟨error, herror, hstage⟩ := h trialVocabulary looseText looseDraft htrial writes_loose
    (by decide) (by decide) (by decide)
  obtain ⟨error', herror', hrefused⟩ : ∃ error, looseText.compile trialVocabulary = .error error ∧
      (Reference.bareTarget "US").Refused "loose" error := resolves_compile htrial writes_loose
  cases herror.symm.trans herror'
  rw [hrefused.stage_eq] at hstage
  cases hstage

end PhaseText

end Conditioning
