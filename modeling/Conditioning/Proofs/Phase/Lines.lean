import Conditioning.Proofs.Phase.Conditions
import Conditioning.Proofs.Vocabulary

/-!
# Reading lines

A line has a label, a stimulus and conditions.  A stimulus is a name or a tuple of
names in quotes (`StimulusText.stimulusNames_eq`).  The rows of a phase are read in
two goes, the labels first and then the lines, which may refer to every label
(`exists_labelled_eq`).
-/

namespace Conditioning

namespace PhaseText

open Literal (HasValue Parted)
open Text (IsGap Solid beside Separated)

/-! ## Stimuli -/

/-- What a text in front of a closing parenthesis ends in: a gap, with a comma before it or not. -/
theorem hasItems_of_separated {cs tail : List Char} {names : List String} {comma : Bool}
    (h : Separated ',' QuotedName cs names) (hnames : ∀ name ∈ names, IsName name)
    (htail : Parted tail)
    (hlast : ∀ (before : List Literal) (text : List Char) (item : Literal),
      HasValue text item tail → Literal.eat? ')' text = none →
      Literal.HasItems ')' before text (before ++ [item]) comma [])
    (before : List Literal) {gap : List Char} (hgap : IsGap gap) :
    Literal.HasItems ')' before (gap ++ (cs ++ tail)) (before ++ names.map Literal.str) comma
      [] := by
  induction h generalizing before gap with
  | @one cs name h =>
    have hvalue := (h.hasValue (hnames name List.mem_cons_self)).append htail
    have hvalue' := hvalue.of_skipSpace_eq (Literal.skipSpace_append hgap (cs ++ tail))
    exact hlast before _ _ hvalue' (hvalue'.eat?_eq_none (.inr (.inl rfl)))
  | @more cs after leading rest name names h hafter hleading hrest ih =>
    have hcomma : Literal.eat? ',' (after ++ ',' :: (leading ++ (rest ++ tail))) =
        some (leading ++ (rest ++ tail)) := by
      rw [Literal.eat?_eq_some, Literal.skipSpace_append hafter, Literal.skipSpace_cons rfl]
    have hparted : Parted (after ++ ',' :: (leading ++ (rest ++ tail))) :=
      parted_of_isGap hafter (by decide) _
    have hvalue := (h.hasValue (hnames name List.mem_cons_self)).append hparted
    have hvalue' := hvalue.of_skipSpace_eq (Literal.skipSpace_append hgap _)
    have hitems := ih (fun name' h' => hnames name' (List.mem_cons_of_mem name h'))
      (before ++ [.str name]) hleading
    rw [List.append_assoc] at hitems
    have htext : gap ++ (beside ',' cs after leading rest ++ tail) =
        gap ++ (cs ++ (after ++ ',' :: (leading ++ (rest ++ tail)))) := by
      simp [beside]
    rw [htext]
    exact .more (hvalue'.eat?_eq_none (.inr (.inl rfl))) hvalue' hcomma hitems

/-- A bare name is no tuple and no text in quotes. -/
theorem IsName.not_quoted {name : String} (h : IsName name) {value : Literal}
    (hparse : Literal.parse name = .ok value) :
    value.isTuple = false ∧ value.asText? = none := by
  obtain ⟨c, cs, hcs, hblank, hmark, -, -⟩ := h.exists_eq_cons
  have hskip : Literal.skipSpace name.toList = c :: cs := by
    rw [hcs, Literal.skipSpace_cons (Text.isSpace_eq_false hblank)]
  obtain ⟨rest, hvalue⟩ := Literal.exists_hasValue_of_parse hparse
  cases hvalue with
  | quoted hs hquote =>
    cases hskip.symm.trans hs
    rcases hquote with rfl | rfl <;> cases hmark
  | parenthesised hs =>
    cases hskip.symm.trans hs
    cases hmark
  | list => exact ⟨rfl, rfl⟩
  | dict => exact ⟨rfl, rfl⟩
  | number hs _ _ hnumeral =>
    rw [Literal.ofNumeral] at hnumeral
    repeat' split at hnumeral
    all_goals cases hnumeral
    all_goals exact ⟨rfl, rfl⟩
  | constant hs _ hconstant =>
    rw [Literal.constant?] at hconstant
    repeat' split at hconstant
    all_goals cases hconstant
    all_goals exact ⟨rfl, rfl⟩

theorem IsName.stimulusNames_eq {name : String} (h : IsName name) :
    stimulusNames name.toList = [name] := by
  rw [stimulusNames, String.ofList_toList]
  split
  next items hparse => cases (h.not_quoted hparse).1
  next text hparse => cases (h.not_quoted hparse).2
  next =>
    rw [h.withoutQuotes_eq, h.solid.trim_eq]
    obtain ⟨c, cs, hcs, -⟩ := h.exists_eq_cons
    rw [hcs]
    show [String.ofList (c :: cs)] = _
    rw [← hcs, String.ofList_toList]

theorem stimulusNames_of_tuple {cs : List Char} {names : List String}
    (h : HasValue cs (.tuple (names.map .str)) []) : stimulusNames cs = names := by
  rw [← String.toList_ofList (l := cs)] at h
  rw [stimulusNames, Literal.parse_of_hasValue h rfl]
  simp [Literal.asText?, Function.comp_def]

namespace StimulusText

variable {cs : List Char} {names : List String}

theorem solid (h : StimulusText cs names) (hnames : ∀ name ∈ names, IsName name) : Solid cs := by
  cases h with
  | name h => exact h.solid (hnames _ List.mem_cons_self)
  | tuple => exact .enclosed rfl rfl _
  | tupleComma => exact .enclosed rfl rfl _

theorem not_mem_items (h : Separated ',' QuotedName cs names)
    (hnames : ∀ name ∈ names, IsName name) : '|' ∉ cs := by
  induction h with
  | @one cs name h => exact h.not_mem (hnames name List.mem_cons_self) rfl (by decide) (by decide)
  | @more cs after before rest name names h hafter hbefore _ ih =>
    refine Text.not_mem_beside rfl (by decide) ?_ ?_ hafter hbefore
    · exact h.not_mem (hnames name List.mem_cons_self) rfl (by decide) (by decide)
    · exact ih fun name' h' => hnames name' (List.mem_cons_of_mem name h')

theorem not_mem (h : StimulusText cs names) (hnames : ∀ name ∈ names, IsName name) :
    '|' ∉ cs := by
  cases h with
  | name h => exact h.not_mem (hnames _ List.mem_cons_self) rfl (by decide) (by decide)
  | tuple h _ hbefore hafter =>
    simp [not_mem_items h hnames, hbefore.not_mem (c := '|') rfl, hafter.not_mem (c := '|') rfl]
  | tupleComma h hbefore hafter hlast =>
    simp [not_mem_items h hnames, hbefore.not_mem (c := '|') rfl, hafter.not_mem (c := '|') rfl,
      hlast.not_mem (c := '|') rfl]

theorem ne_nil (h : StimulusText cs names) : names ≠ [] := by
  cases h with
  | name => exact List.cons_ne_nil _ _
  | tuple h => exact h.ne_nil
  | tupleComma h => exact h.ne_nil

theorem stimulusNames_eq (h : StimulusText cs names) (hnames : ∀ name ∈ names, IsName name) :
    stimulusNames cs = names := by
  cases h with
  | name h =>
    have hname := hnames _ List.mem_cons_self
    cases h with
    | bare => exact hname.stimulusNames_eq
    | quoted h =>
      have hvalue := h.hasValue hname
      rw [← String.toList_ofList (l := cs)] at hvalue
      rw [stimulusNames, Literal.parse_of_hasValue hvalue rfl]
  | @tuple cs before after names h hmany hbefore hafter =>
    have hskip : Literal.skipSpace (after ++ [')']) = [')'] := by
      rw [Literal.skipSpace_append hafter, Literal.skipSpace_cons rfl]
    have hlast (acc : List Literal) (text : List Char) (item : Literal)
        (hitem : HasValue text item (after ++ [')'])) (hopen : Literal.eat? ')' text = none) :
        Literal.HasItems ')' acc text (acc ++ [item]) false [] :=
      .last hopen hitem (Literal.eat?_eq_none hskip (by decide)) (Literal.eat?_eq_some.2 hskip)
    have hitems := hasItems_of_separated h hnames (parted_of_isGap hafter (by decide) []) hlast []
      hbefore
    have htuple : Literal.ofParenthesised (names.map .str) false = .tuple (names.map .str) :=
      Literal.ofParenthesised_many (by rwa [List.length_map]) false
    have hvalue : HasValue _ _ [] :=
      .parenthesised (Literal.skipSpace_cons (c := '(') rfl _) hitems
    rw [List.nil_append, htuple] at hvalue
    refine stimulusNames_of_tuple ?_
    simpa using hvalue
  | @tupleComma cs before after last names h hbefore hafter hlast =>
    have hskip : Literal.skipSpace (last ++ [')']) = [')'] := by
      rw [Literal.skipSpace_append hlast, Literal.skipSpace_cons rfl]
    have hcomma : Literal.eat? ',' (after ++ ',' :: (last ++ [')'])) = some (last ++ [')']) := by
      rw [Literal.eat?_eq_some, Literal.skipSpace_append hafter, Literal.skipSpace_cons rfl]
    have hlast (acc : List Literal) (text : List Char) (item : Literal)
        (hitem : HasValue text item (after ++ ',' :: (last ++ [')'])))
        (hopen : Literal.eat? ')' text = none) :
        Literal.HasItems ')' acc text (acc ++ [item]) true [] := by
      have hclose : Literal.HasItems ')' (acc ++ [item]) (last ++ [')']) (acc ++ [item])
          (!(acc ++ [item]).isEmpty) [] := .close (Literal.eat?_eq_some.2 hskip)
      rw [List.isEmpty_eq_false_iff.2 (by simp)] at hclose
      exact .more hopen hitem hcomma hclose
    have hitems := hasItems_of_separated h hnames
      (parted_of_isGap hafter (by decide) (last ++ [')'])) hlast [] hbefore
    have hvalue : HasValue _ _ [] :=
      .parenthesised (Literal.skipSpace_cons (c := '(') rfl _) hitems
    rw [List.nil_append, Literal.ofParenthesised_comma] at hvalue
    refine stimulusNames_of_tuple ?_
    simpa using hvalue

end StimulusText

/-! ## Lines -/

theorem firstWord_append {word gap rest : List Char} (hword : ∀ c ∈ word, Text.isBlank c = false)
    (hgap : IsGap gap) (hne : gap ≠ []) (hrest : Solid rest) :
    Text.firstWord (word ++ (gap ++ rest)) = (word, rest) := by
  obtain ⟨c, gap', rfl⟩ := List.exists_cons_of_ne_nil hne
  have hblank : Text.isBlank c = true := hgap.isBlank List.mem_cons_self
  have hall : ∀ d ∈ word, (!Text.isBlank d) = true := fun d hd => by rw [hword d hd]; rfl
  rw [Text.firstWord, List.takeWhile_append_of_pos hall, List.dropWhile_append_of_pos hall,
    List.cons_append, List.takeWhile_cons_of_neg (by simp [hblank]),
    List.dropWhile_cons_of_neg (by simp [hblank]), List.append_nil, ← List.cons_append,
    hrest.trim_gap_append hgap]

/-- The names of a graph, as far as its lines are concerned. -/
structure Names (vocabulary : Vocabulary) (labels : List String) : Prop where
  element_isName : ∀ name ∈ vocabulary.elements, IsName name
  behavior_isName : ∀ name ∈ vocabulary.behaviors, IsName name
  label_isName : ∀ name ∈ labels, IsName name
  elements_nodup : vocabulary.elements.Nodup
  behaviors_nodup : vocabulary.behaviors.Nodup
  labels_nodup : labels.Nodup
  disjoint : ∀ name ∈ vocabulary.elements, name ∉ vocabulary.behaviors
  labels_fresh : ∀ name ∈ labels, name ∉ vocabulary.elements ∧ name ∉ vocabulary.behaviors

section

variable {vocabulary : Vocabulary} {labels : List String}

/-- The elements of a stimulus are found by their names. -/
theorem elements_eq {names : List String} {elements : List ElementId}
    (h : List.Forall₂ (fun name e => vocabulary.elements[e]? = some name) names elements)
    (hnodup : vocabulary.elements.Nodup) (place : String) :
    (names.mapM fun name => vocabulary.element name place) = .ok elements := by
  refine mapM_eq_ok.2 (h.imp fun name e he => ?_)
  rw [Vocabulary.element, Vocabulary.element?, idxOf?_eq_some hnodup he]

theorem forall₂_of_mem {α β : Type} {R : α → β → Prop} {S : α → β → Prop} {xs : List α}
    {ys : List β} (h : List.Forall₂ R xs ys) (hS : ∀ x, ∀ y ∈ ys, R x y → S x y) :
    List.Forall₂ S xs ys := by
  induction h with
  | nil => exact .nil
  | cons hxy _ ih =>
    exact .cons (hS _ _ List.mem_cons_self hxy)
      (ih fun x y hy => hS x y (List.mem_cons_of_mem _ hy))

/-- A label is the first word of its row. -/
theorem firstWord_of_label {label : String} {leading gap rest trailing : List Char}
    (hlabel : IsName label) (hleading : IsGap leading) (hgap : IsGap gap) (hne : gap ≠ [])
    (hrest : Solid rest) (htrailing : IsGap trailing) :
    Text.firstWord (Text.trim (leading ++ (label.toList ++ (gap ++ rest) ++ trailing))) =
      (label.toList, rest) := by
  rw [(hlabel.solid.append hrest gap).trim_around hleading htrailing]
  exact firstWord_append hlabel.not_blank hgap hne hrest

/-- The line of a label, elements and conditions, if it may end in the last condition. -/
def finish (phase label : String) (elements : List ElementId) (conditions : List Condition) :
    Except Error Line :=
  match conditions.getLast? with
  | some last =>
    if closes last then .ok ⟨label, ⟨elements⟩, conditions⟩
    else .error (.invalid (.unassignedProbability label phase))
  | none => .ok ⟨label, ⟨elements⟩, conditions⟩

theorem finish_eq_ok {phase label : String} {elements : List ElementId}
    {conditions : List Condition}
    (hlast : ∀ last, conditions.getLast? = some last → closes last = true) :
    finish phase label elements conditions = .ok ⟨label, ⟨elements⟩, conditions⟩ := by
  rw [finish]
  cases hgetLast : conditions.getLast? with
  | none => rfl
  | some last => exact if_pos (hlast last hgetLast)

/-- The stimulus and the conditions are read from the texts on both sides of the first bar. -/
theorem line_of_stimulus {names : List String} {cs ds after before : List Char}
    (hstimulus : StimulusText cs names) (hnames : ∀ name ∈ names, IsName name)
    (hafter : IsGap after) (phase label : String) :
    PhaseText.line vocabulary labels phase label (beside '|' cs after before ds) = (do
      let elements ← names.mapM fun name =>
        vocabulary.element name s!"line '{label}' of phase '{phase}'"
      let conditions ← (Text.pieces '|' (before ++ ds)).mapM fun text =>
        PhaseText.condition vocabulary labels phase (Text.trim text)
      finish phase label elements conditions) := by
  have hstimulusText : stimulusNames (Text.trim (cs ++ after)) = names := by
    rw [(hstimulus.solid hnames).trim_append hafter, hstimulus.stimulusNames_eq hnames]
  obtain ⟨name, names', hcons⟩ := List.exists_cons_of_ne_nil hstimulus.ne_nil
  rw [PhaseText.line, Text.cut_beside rfl (hstimulus.not_mem hnames) hafter]
  simp only [hstimulusText, hcons]
  rfl

namespace LineText

variable {row : List Char} {line : Line}

/-- A line is read from what follows its label. -/
theorem exists_line_eq (h : LineText vocabulary labels row line) (hnames : Names vocabulary labels)
    (hlabel : line.label ∈ labels)
    (hmass : ∀ condition ∈ line.conditions, condition.rawMass ≤ 1.0 + roundingSlack)
    (hlast : ∀ last, line.conditions.getLast? = some last →
      last.guard.isOpen = true → 1.0 - roundingSlack ≤ last.rawMass) (phase : String) :
    ∃ rest, Text.firstWord (Text.trim row) = (line.label.toList, rest) ∧ rest ≠ [] ∧
      PhaseText.line vocabulary labels phase line.label rest = .ok line := by
  obtain ⟨hleading, hgap, hne, hstimulus, helements, hafter, hbefore, hconditions, htrailing⟩ := h
  rename_i label names elements conditions cs ds leading gap after before trailing
  have hlabelName := hnames.label_isName _ hlabel
  have hstimulusNames : ∀ name ∈ names, IsName name := fun name hname => by
    obtain ⟨e, -, he⟩ := exists_of_mem_forall₂ (List.Forall₂.flip helements) hname
    exact hnames.element_isName name (List.mem_of_getElem? he)
  have hcondition (text : List Char) (condition : Condition)
      (h : ConditionText vocabulary labels text condition) : Solid text ∧ '|' ∉ text :=
    ⟨h.solid hnames.behavior_isName hnames.label_isName,
      h.not_mem hnames.behavior_isName hnames.label_isName⟩
  have hrest : Solid (beside '|' cs after before ds) :=
    (hstimulus.solid hstimulusNames).beside (hconditions.solid fun text condition h =>
      (hcondition text condition h).1)
  refine ⟨beside '|' cs after before ds,
    firstWord_of_label hlabelName hleading hgap hne hrest htrailing, hrest.ne_nil, ?_⟩
  have hread : ((Text.pieces '|' (before ++ ds)).mapM fun text =>
      PhaseText.condition vocabulary labels phase (Text.trim text)) = .ok conditions := by
    have hpieces : List.Forall₂ (fun text condition =>
        PhaseText.condition vocabulary labels phase text = .ok condition)
        ((Text.pieces '|' (before ++ ds)).map Text.trim) conditions :=
      forall₂_of_mem (hconditions.forall₂_pieces rfl hcondition hbefore)
        fun text condition hmem h => h.condition_eq hnames.behavior_isName
          hnames.behaviors_nodup hnames.label_isName hnames.labels_nodup
          (hmass condition hmem) phase
    exact mapM_eq_ok.2 (List.forall₂_map_left_iff.1 hpieces)
  rw [line_of_stimulus hstimulus hstimulusNames hafter]
  exact bind_eq_ok.2 ⟨_, elements_eq helements hnames.elements_nodup _, bind_eq_ok.2
    ⟨_, hread, finish_eq_ok fun last h => closes_of_le_rawMass (hlast last h)⟩⟩

end LineText

/-- The label of a row that is new stands in front of the labels after it. -/
theorem labelled_cons_eq {row label phase : String} {rest : List Char} {before rows : List String}
    {read : List (String × List Char)}
    (hword : Text.firstWord (Text.trim row.toList) = (label.toList, rest)) (hne : rest ≠ [])
    (hfresh : label ∉ vocabulary.elements ∧ label ∉ vocabulary.behaviors) (hnew : label ∉ before)
    (hread : labelled vocabulary phase (before ++ [label]) rows = .ok read) :
    labelled vocabulary phase before (row :: rows) = .ok ((label, rest) :: read) := by
  have hempty : rest.isEmpty = false := List.isEmpty_eq_false_iff.2 hne
  have hcontains : before.contains label = false := by simp [hnew]
  rw [labelled]
  simp only [hword, String.ofList_toList, hempty, Vocabulary.element?, Vocabulary.behavior?,
    List.idxOf?_eq_none_iff.2 hfresh.1, List.idxOf?_eq_none_iff.2 hfresh.2, hcontains]
  exact bind_eq_ok.2 ⟨read, hread, rfl⟩

/-- Rows whose labels can be told apart are taken apart one after the other. -/
theorem exists_labelled {α : Type} {label : α → String} {R : List Char → α → Prop}
    {rows : List String} {lines : List α}
    (h : List.Forall₂ (fun row line => ∃ rest,
      Text.firstWord (Text.trim row.toList) = ((label line).toList, rest) ∧ rest ≠ [] ∧
        R rest line) rows lines) {before : List String}
    (hnodup : (before ++ lines.map label).Nodup)
    (hfresh : ∀ line ∈ lines,
      label line ∉ vocabulary.elements ∧ label line ∉ vocabulary.behaviors) (phase : String) :
    ∃ read, labelled vocabulary phase before rows = .ok read ∧
      read.map Prod.fst = lines.map label ∧
      List.Forall₂ (fun row line => row.1 = label line ∧ R row.2 line) read lines := by
  induction h generalizing before with
  | nil => exact ⟨[], by rw [labelled], rfl, .nil⟩
  | @cons row line rows lines hrow _ ih =>
    obtain ⟨rest, hword, hne, hline⟩ := hrow
    obtain ⟨hfirst, hfresh⟩ := List.forall_mem_cons.1 hfresh
    rw [List.map_cons] at hnodup
    have hnew : label line ∉ before := fun hmem =>
      (List.nodup_append.1 hnodup).2.2 _ hmem _ List.mem_cons_self rfl
    rw [List.append_cons] at hnodup
    obtain ⟨read, hread, hfst, hlines⟩ := ih hnodup hfresh
    exact ⟨(label line, rest) :: read, labelled_cons_eq hword hne hfirst hnew hread,
      congrArg (label line :: ·) hfst, .cons ⟨rfl, hline⟩ hlines⟩

/-- The rows of a graph are read one after the other. -/
theorem exists_labelled_eq {rows : List String} {lines : List Line}
    (h : List.Forall₂ (fun row line => LineText vocabulary labels row.toList line) rows lines)
    (hnames : Names vocabulary labels) {before : List String}
    (hlabels : before ++ lines.map Line.label = labels)
    (hmass : ∀ line ∈ lines, ∀ condition ∈ line.conditions,
      condition.rawMass ≤ 1.0 + roundingSlack)
    (hlast : ∀ line ∈ lines, ∀ last, line.conditions.getLast? = some last →
      last.guard.isOpen = true → 1.0 - roundingSlack ≤ last.rawMass) (phase : String) :
    ∃ read, labelled vocabulary phase before rows = .ok read ∧
      read.map Prod.fst = lines.map Line.label ∧
      List.Forall₂ (fun row line =>
        PhaseText.line vocabulary labels phase row.1 row.2 = .ok line) read lines := by
  have hmem : ∀ line ∈ lines, line.label ∈ labels := fun line hline =>
    hlabels ▸ List.mem_append_right before (List.mem_map_of_mem hline)
  have hrows := forall₂_of_mem h fun row line hline hrow =>
    hrow.exists_line_eq hnames (hmem line hline) (hmass line hline) (hlast line hline) phase
  obtain ⟨read, hread, hfst, hlines⟩ := exists_labelled hrows (hlabels ▸ hnames.labels_nodup)
    (fun line hline => hnames.labels_fresh line.label (hmem line hline)) phase
  exact ⟨read, hread, hfst, hlines.imp fun row line hrow => by rw [hrow.1, hrow.2]⟩

end

end PhaseText

end Conditioning
