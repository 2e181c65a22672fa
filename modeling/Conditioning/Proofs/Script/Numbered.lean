import Conditioning.Proofs.Script.Declared
import Conditioning.Proofs.Stages.Script

/-!
# Numbers in place of labels

Phases and runs without a label are numbered among themselves, whatever labels the
others have.  Two numbers differ, so a number is in use before its turn only if it
was given as a label (`numbered_mem_labelsOf`).  Then a phase without a label goes
on with the phase that took its number, whose end it replaces, and a run without a
label is refused; in all other cases the phase and the run are new ones under their
numbers (`Script.generated_labels`).
-/

namespace Conditioning

/-! ## Labels in use -/

theorem Draft.numbered_injective {word : String} {i j : Nat}
    (h : numbered word i = numbered word j) : i = j := by
  have hlist := congrArg String.toList h
  simp only [numbered, String.toList_append, Decimal.naturalText, String.toList_ofList] at hlist
  -- the word is the same, and what follows it reads back as the number
  have hvalue := congrArg Decimal.value (List.append_cancel_left hlist)
  rw [Decimal.value_digits, Decimal.value_digits] at hvalue
  exact Nat.succ.inj hvalue

section

variable {word : String} {label? : Declaration → Option (Option String)}
  {declarations : List Declaration} {declaration : Declaration}

/-- Declarations give a label. -/
def LabelGiven (label? : Declaration → Option (Option String)) (declarations : List Declaration)
    (label : String) : Prop :=
  ∃ declaration ∈ declarations, label? declaration = some (some label)

/-- The number in place of the next label that is left out. -/
def nextLabel (word : String) (label? : Declaration → Option (Option String))
    (declarations : List Declaration) : String :=
  Draft.numbered word (declarations.countP fun declaration => label? declaration == some none)

/-- The labels and the numbers in their place. -/
def labelsOf (word : String) (label? : Declaration → Option (Option String))
    (declarations : List Declaration) : List String :=
  (preceded [] declarations).filterMap fun place =>
    (label? place.2).map fun given => given.getD (nextLabel word label? place.1)

theorem labelsOf_append_singleton :
    labelsOf word label? (declarations ++ [declaration]) =
      labelsOf word label? declarations ++
        ((label? declaration).map fun given =>
          given.getD (nextLabel word label? declarations)).toList := by
  rw [labelsOf, preceded_append_singleton, List.filterMap_append, List.nil_append, labelsOf]
  cases h : label? declaration <;> simp [h]

/-- A number whose turn has not come is in use only if it was given. -/
theorem numbered_mem_labelsOf {n : Nat}
    (hn : (declarations.countP fun declaration => label? declaration == some none) ≤ n) :
    Draft.numbered word n ∈ labelsOf word label? declarations ↔
      LabelGiven label? declarations (Draft.numbered word n) := by
  induction declarations using List.reverseRecOn with
  | nil => simp [labelsOf, preceded, LabelGiven]
  | append_singleton declarations declaration ih =>
    rw [List.countP_append, List.countP_singleton] at hn
    have hgiven : LabelGiven label? (declarations ++ [declaration]) (Draft.numbered word n) ↔
        LabelGiven label? declarations (Draft.numbered word n) ∨
          label? declaration = some (some (Draft.numbered word n)) := by
      simp [LabelGiven, or_and_right, exists_or]
    rw [labelsOf_append_singleton, List.mem_append, ih (Nat.le_of_add_right_le hn), hgiven]
    refine or_congr_right ?_
    cases hlabel : label? declaration with
    | none => simp
    | some given =>
      cases given with
      | some label => simp [eq_comm]
      | none =>
        -- this declaration takes a number, so the next one is greater
        have hlt : (declarations.countP fun declaration => label? declaration == some none) < n := by
          simp only [hlabel, BEq.rfl, if_true] at hn
          exact hn
        have hne : Draft.numbered word n ≠ nextLabel word label? declarations :=
          fun heq => (Nat.ne_of_lt hlt) (Draft.numbered_injective heq).symm
        simp [hne]

theorem nextLabel_mem_labelsOf :
    nextLabel word label? declarations ∈ labelsOf word label? declarations ↔
      LabelGiven label? declarations (nextLabel word label? declarations) :=
  numbered_mem_labelsOf (Nat.le_refl _)

end

theorem map_label_partsOf (declarations : List Declaration) :
    (partsOf declarations).map PhaseText.label =
      labelsOf "phase" Declaration.phaseLabel? declarations := by
  rw [partsOf, List.map_filterMap, labelsOf]
  refine congrArg (List.filterMap · _) (funext fun place => ?_)
  cases place.2 <;> rfl

theorem map_label_runsOf (declarations : List Declaration) :
    (runsOf declarations).map DeclaredRun.label =
      labelsOf "run" Declaration.runLabel? declarations := by
  rw [runsOf, List.map_filterMap, labelsOf]
  refine congrArg (List.filterMap · _) (funext fun place => ?_)
  cases place.2 <;> rfl

namespace Draft

variable {declarations : List Declaration} {draft : Draft}

theorem Holds.mem_phases (h : draft.Holds declarations) {label : String} :
    label ∈ draft.script.phases.map PhaseText.label ↔
      label ∈ labelsOf "phase" Declaration.phaseLabel? declarations := by
  have hlabels : (phasesOf declarations).map PhaseText.label =
      ((partsOf declarations).map PhaseText.label).eraseDups := by
    rw [phasesOf, PhaseText.gather, List.map_map]
    exact List.map_id _
  rw [h.phases, hlabels, List.mem_eraseDups, map_label_partsOf]

theorem Holds.mem_runs (h : draft.Holds declarations) {label : String} :
    label ∈ draft.script.runs.map Run.label ↔
      label ∈ labelsOf "run" Declaration.runLabel? declarations := by
  have hlabels : (runsOf declarations).map DeclaredRun.label = draft.script.runs.map Run.label := by
    rw [← List.forall₂_eq_eq_eq, List.forall₂_map_left_iff, List.forall₂_map_right_iff]
    exact h.runs.imp fun _ _ hgives => hgives.label.symm
  rw [← hlabels, map_label_runsOf]

end Draft

/-! ## Blocks without a label -/

namespace Script

/-- A label that no phase has makes a new phase. -/
theorem putPhase_of_not_mem {label ending : String} {rows : List String} {phases : List PhaseText}
    (h : label ∉ phases.map PhaseText.label) :
    putPhase label ending rows phases = phases ++ [⟨label, ending, rows⟩] := by
  induction phases with
  | nil => rfl
  | cons phase phases ih =>
    have hphase : phase.label ≠ label := (List.ne_of_not_mem_cons h).symm
    rw [putPhase, if_neg hphase, ih (List.not_mem_of_not_mem_cons h)]
    rfl

/-- A label that a phase has goes on with that phase, and with no other. -/
theorem exists_putPhase_of_mem {label : String} {phases : List PhaseText}
    (h : label ∈ phases.map PhaseText.label) (ending : String) (rows : List String) :
    ∃ front phase back, phases = front ++ phase :: back ∧ phase.label = label ∧
      putPhase label ending rows phases = front ++ ⟨label, ending, phase.rows ++ rows⟩ :: back := by
  induction phases with
  | nil => cases h
  | cons phase phases ih =>
    by_cases hphase : phase.label = label
    · refine ⟨[], phase, phases, rfl, hphase, ?_⟩
      rw [putPhase, if_pos hphase]
      rfl
    · have hphases : label ∈ phases.map PhaseText.label :=
        (List.mem_cons.1 h).resolve_left (Ne.symm hphase)
      obtain ⟨front, found, back, rfl, hfound, hput⟩ := ih hphases
      refine ⟨phase :: front, found, back, rfl, hfound, ?_⟩
      rw [putPhase, if_neg hphase, hput]
      rfl

section

variable {properties : Dict} {property : String} {keyword : Keyword}

theorem textProperty_of_get?_eq_none (h : properties.get? property = none) :
    textProperty properties property keyword = .ok none := by
  rw [textProperty, h]

theorem get?_of_textProperty_eq_some {text : String}
    (h : textProperty properties property keyword = .ok (some text)) :
    properties.get? property = some (.str text) := by
  unfold textProperty at h
  split at h
  next => cases h
  next value hvalue =>
    split at h
    next found hfound =>
      cases h
      rw [hvalue, Literal.asText?_eq_some hfound]
    next => cases h

end

end Script

/-- The properties of a block can be read, and no label is among them. -/
def Block.IsUnlabelled (block : Block) : Prop :=
  ∃ properties, block.properties = .ok properties ∧ properties.get? "label" = none

/-- The properties of a block can be read, and one of them is a text. -/
def Block.Gives (block : Block) (property text : String) : Prop :=
  ∃ properties, block.properties = .ok properties ∧ properties.get? property = some (.str text)

theorem Block.IsUnlabelled.textProperty_eq_ok {block : Block} {properties : Dict}
    (h : block.IsUnlabelled) (hproperties : block.properties = .ok properties) (keyword : Keyword) :
    Script.textProperty properties "label" keyword = .ok none := by
  obtain ⟨_, hread, hlabel⟩ := h
  cases hproperties.symm.trans hread
  exact Script.textProperty_of_get?_eq_none hlabel

namespace Draft

variable {draft later : Draft} {block : Block}

theorem addPhase_of_isUnlabelled (hunlabelled : block.IsUnlabelled)
    (h : draft.addPhase block = .ok later) :
    ∃ ending, block.Gives "end" ending ∧ later.script.phases =
      Script.putPhase (numbered "phase" draft.unnamedPhases) ending block.body
        draft.script.phases := by
  obtain ⟨properties, given, ending, hproperties, hgiven, hending, rfl⟩ := addPhase_eq_ok h
  cases hgiven.symm.trans (hunlabelled.textProperty_eq_ok hproperties .phase)
  exact ⟨ending, ⟨properties, hproperties, Script.get?_of_textProperty_eq_some hending⟩, rfl⟩

theorem addRun_of_isUnlabelled (hunlabelled : block.IsUnlabelled)
    (h : draft.addRun block = .ok later) :
    ∃ run, run.label = numbered "run" draft.unnamedRuns ∧
      run.label ∉ draft.script.runs.map Run.label ∧
      later.script.runs = draft.script.runs ++ [run] := by
  obtain ⟨properties, given, run, hproperties, hgiven, hrun, hfresh, rfl⟩ := addRun_eq_ok h
  cases hgiven.symm.trans (hunlabelled.textProperty_eq_ok hproperties .run)
  exact ⟨run, (Script.builds_of_buildRun hrun).1, hfresh, rfl⟩

/-- A run is refused for its label if another one has it, and for no other reason. -/
theorem addRun_eq_duplicateRunLabel {label : String} :
    draft.addRun block = .error (.duplicateRunLabel label) ↔
      ∃ properties given, block.properties = .ok properties ∧
        Script.checkProperties properties ["label", "phases"] .run = .ok () ∧
        Script.textProperty properties "label" .run = .ok given ∧
        given.getD (numbered "run" draft.unnamedRuns) = label ∧
        label ∈ draft.script.runs.map Run.label := by
  have hmem (given : Option String) :
      (draft.script.runs.any fun run => run.label == given.getD (numbered "run" draft.unnamedRuns)) =
        true ↔ given.getD (numbered "run" draft.unnamedRuns) ∈ draft.script.runs.map Run.label := by
    simp
  unfold addRun
  simp only [getD_numbered]
  constructor
  · intro h
    let P := fun error : Error => ∀ label, error ≠ .duplicateRunLabel label
    have hmalformed (cause : Malformed) : P (.malformed cause) := nofun
    have hproperties : FailsWith P block.properties := block.failsWith_properties fun _ _ => nofun
    rcases bind_eq_error.1 h with h | ⟨properties, hread, h⟩
    · exact absurd rfl (hproperties _ h label)
    rcases bind_eq_error.1 h with h | ⟨_, hknown, h⟩
    · exact absurd rfl (Script.failsWith_checkProperties hmalformed _ _ _ _ h label)
    rcases bind_eq_error.1 h with h | ⟨given, hgiven, h⟩
    · exact absurd rfl (Script.failsWith_textProperty hmalformed _ _ _ _ h label)
    split at h
    next htaken =>
      cases h
      exact ⟨properties, given, hread, hknown, hgiven, rfl, (hmem given).1 htaken⟩
    next =>
      rcases bind_eq_error.1 h with h | ⟨run, -, h⟩
      · rcases Script.failsWith_buildRun _ _ _ _ h with ⟨_, hcause⟩ | hstage
        · cases hcause
        · cases hstage
      · cases h
  · rintro ⟨properties, given, hread, hknown, hgiven, rfl, htaken⟩
    refine bind_eq_error.2 (.inr ⟨properties, hread, bind_eq_error.2 (.inr ⟨(), hknown, ?_⟩)⟩)
    exact bind_eq_error.2 (.inr ⟨given, hgiven, if_pos ((hmem given).2 htaken)⟩)

end Draft

/-! ## Scripts -/

namespace Script

/-- A text can be taken as far as a block: what the blocks before it declare, and the draft that
they lead to. -/
def Reaches (text : String) (declarations : List Declaration) (draft : Draft) (block : Block) :
    Prop :=
  ∃ before after, blocksOf (cleanLines text.toList) = .ok (before ++ block :: after) ∧
    before.mapM Block.declaration? = some declarations ∧
    before.foldlM Draft.addBlock Draft.empty = .ok draft

variable {text : String} {declarations : List Declaration} {draft : Draft} {block : Block}
  {error : Error}

theorem Reaches.holds (h : Reaches text declarations draft block) : draft.Holds declarations := by
  obtain ⟨before, _, -, hdeclarations, hdraft⟩ := h
  obtain ⟨_, hsame, hholds⟩ := Draft.holds_of_foldlM hdraft
  cases hdeclarations.symm.trans hsame
  exact hholds

theorem Reaches.numbered_unnamedPhases (h : Reaches text declarations draft block) :
    Draft.numbered "phase" draft.unnamedPhases =
      nextLabel "phase" Declaration.phaseLabel? declarations :=
  congrArg (Draft.numbered "phase") h.holds.unnamedPhases

theorem Reaches.numbered_unnamedRuns (h : Reaches text declarations draft block) :
    Draft.numbered "run" draft.unnamedRuns = nextLabel "run" Declaration.runLabel? declarations :=
  congrArg (Draft.numbered "run") h.holds.unnamedRuns

/-- A text is refused for its form, or at a block that it can be taken as far as. -/
theorem parse_eq_error :
    Script.parse text = .error error ↔ blocksOf (cleanLines text.toList) = .error error ∨
      ∃ declarations draft block, Reaches text declarations draft block ∧
        draft.addBlock block = .error error := by
  rw [Script.parse, bind_eq_error]
  refine or_congr_right ⟨?_, ?_⟩
  · rintro ⟨blocks, hblocks, h⟩
    obtain ⟨before, block, after, draft, rfl, hdraft, hadd⟩ :=
      foldlM_eq_error.1 (map_eq_error.1 h)
    obtain ⟨declarations, hdeclarations, -⟩ := Draft.holds_of_foldlM hdraft
    exact ⟨declarations, draft, block, ⟨before, after, hblocks, hdeclarations, hdraft⟩, hadd⟩
  · rintro ⟨declarations, draft, block, ⟨before, after, hblocks, -, hdraft⟩, hadd⟩
    exact ⟨_, hblocks,
      map_eq_error.2 (foldlM_eq_error.2 ⟨before, block, after, draft, rfl, hdraft, hadd⟩)⟩

theorem parse_eq_duplicateRunLabel {label : String} :
    Script.parse text = .error (.duplicateRunLabel label) ↔
      ∃ declarations draft block, Reaches text declarations draft block ∧
        draft.addBlock block = .error (.duplicateRunLabel label) := by
  have hform : FailsWith (fun error => ∀ label, error ≠ .duplicateRunLabel label)
      (blocksOf (cleanLines text.toList)) :=
    failsWith_blocksOf (fun _ _ => nofun) (fun _ _ => nofun) _
  exact parse_eq_error.trans (or_iff_right fun h => hform _ h label rfl)

/-- A phase without a label is put under the next number, with the end and the rows of its block.  It
is a new one and changes no other, unless its number was given to an earlier phase, which then goes
on with the new end.  A run without a label is a new one under the next number; it is refused for its
number only if that was given to an earlier run. -/
theorem generated_labels (text : String) :
    (∀ declarations draft block later, Reaches text declarations draft block →
      block.keyword = .phase → block.IsUnlabelled → draft.addBlock block = .ok later →
      let label := nextLabel "phase" Declaration.phaseLabel? declarations
      ∃ ending, block.Gives "end" ending ∧
        ((¬LabelGiven Declaration.phaseLabel? declarations label ∧
          later.script.phases = draft.script.phases ++ [⟨label, ending, block.body⟩]) ∨
        (LabelGiven Declaration.phaseLabel? declarations label ∧
          ∃ front phase back, draft.script.phases = front ++ phase :: back ∧ phase.label = label ∧
            later.script.phases =
              front ++ ⟨label, ending, phase.rows ++ block.body⟩ :: back))) ∧
    (∀ declarations draft block later, Reaches text declarations draft block →
      block.keyword = .run → block.IsUnlabelled → draft.addBlock block = .ok later →
      let label := nextLabel "run" Declaration.runLabel? declarations
      ¬LabelGiven Declaration.runLabel? declarations label ∧
        ∃ run, run.label = label ∧ later.script.runs = draft.script.runs ++ [run]) ∧
    (∀ declarations draft block label, Reaches text declarations draft block →
      block.keyword = .run → block.IsUnlabelled →
      draft.addBlock block = .error (.duplicateRunLabel label) →
      label = nextLabel "run" Declaration.runLabel? declarations ∧
        LabelGiven Declaration.runLabel? declarations label) ∧
    ∀ label, Script.parse text = .error (.duplicateRunLabel label) ↔
      ∃ declarations draft block, Reaches text declarations draft block ∧
        draft.addBlock block = .error (.duplicateRunLabel label) := by
  refine ⟨?_, ?_, ?_, fun _ => parse_eq_duplicateRunLabel⟩
  · intro declarations draft block later hreaches hkeyword hunlabelled hadd label
    have hmem : label ∈ draft.script.phases.map PhaseText.label ↔
        LabelGiven Declaration.phaseLabel? declarations label :=
      hreaches.holds.mem_phases.trans nextLabel_mem_labelsOf
    rw [Draft.addBlock, hkeyword] at hadd
    obtain ⟨ending, hending, hphases⟩ := Draft.addPhase_of_isUnlabelled hunlabelled hadd
    rw [hreaches.numbered_unnamedPhases] at hphases
    refine ⟨ending, hending, ?_⟩
    -- putting a phase under a label depends on whether the label is in use
    by_cases hgiven : LabelGiven Declaration.phaseLabel? declarations label
    · obtain ⟨front, phase, back, hdraft, hphase, hput⟩ :=
        exists_putPhase_of_mem (hmem.2 hgiven) ending block.body
      exact .inr ⟨hgiven, front, phase, back, hdraft, hphase, hphases.trans hput⟩
    · exact .inl ⟨hgiven, hphases.trans (putPhase_of_not_mem (mt hmem.1 hgiven))⟩
  · intro declarations draft block later hreaches hkeyword hunlabelled hadd label
    rw [Draft.addBlock, hkeyword] at hadd
    obtain ⟨run, hlabel, hfresh, hruns⟩ := Draft.addRun_of_isUnlabelled hunlabelled hadd
    rw [hreaches.numbered_unnamedRuns] at hlabel
    rw [hlabel, hreaches.holds.mem_runs, nextLabel_mem_labelsOf] at hfresh
    exact ⟨hfresh, run, hlabel, hruns⟩
  · intro declarations draft block label hreaches hkeyword hunlabelled hadd
    rw [Draft.addBlock, hkeyword] at hadd
    obtain ⟨properties, given, hread, -, hlabel, rfl, htaken⟩ :=
      Draft.addRun_eq_duplicateRunLabel.1 hadd
    cases hlabel.symm.trans (hunlabelled.textProperty_eq_ok hread .run)
    rw [Option.getD_none, hreaches.numbered_unnamedRuns] at htaken ⊢
    exact ⟨rfl, nextLabel_mem_labelsOf.1 (hreaches.holds.mem_runs.1 htaken)⟩

/-! ## Numbers given as labels -/

/-- The lines of `phaseTaken`. -/
def phaseTakenLines : List String := [
  "@phase \x7b'end': 'cs=1'\x7d",
  "CS cs | CS",
  "@phase \x7b'label': 'phase2', 'end': 'us=1'\x7d",
  "US us | US",
  "@phase \x7b'end': 'cs=1'\x7d",
  "TEST cs | TEST"]

/-- The second number is given as a label before its turn. -/
def phaseTaken : String := String.intercalate "\n" phaseTakenLines

/-- A block of a phase that says when it ends, and nothing else. -/
def bareEnd (rows : List String) : Block := ⟨.phase, some "\x7b'end': 'cs=1'\x7d", rows⟩

/-- The blocks of `phaseTaken` before the last. -/
def phaseTakenBefore : List Block := [
  bareEnd ["CS cs | CS"],
  ⟨.phase, some "\x7b'label': 'phase2', 'end': 'us=1'\x7d", ["US us | US"]⟩]

/-- What the blocks of `phaseTaken` before the last declare. -/
def phaseTakenDeclarations : List Declaration := [
  .phase none "cs=1" ["CS cs | CS"],
  .phase (some "phase2") "us=1" ["US us | US"]]

/-- The draft that the blocks of `phaseTaken` before the last lead to. -/
def phaseTakenDraft : Draft where
  script := { Script.empty with
    phases := [⟨"phase1", "cs=1", ["CS cs | CS"]⟩, ⟨"phase2", "us=1", ["US us | US"]⟩] }
  unnamedPhases := 1
  unnamedRuns := 0

theorem numbered_phase_zero : Draft.numbered "phase" 0 = "phase1" := by decide +kernel

theorem numbered_phase_one : Draft.numbered "phase" 1 = "phase2" := by decide +kernel

open Literal in
theorem properties_bareEnd (rows : List String) :
    (bareEnd rows).properties = .ok ⟨[(.str "end", .str "cs=1")]⟩ := by
  have hread : Reads "\x7b'end': 'cs=1'\x7d".toList (.dict [(.str "end", .str "cs=1")]) [] :=
    .dict rfl (.last rfl (.quoted "end" ": 'cs=1'\x7d".toList rfl (.inl rfl) rfl) rfl rfl
      (.quoted "cs=1" "\x7d".toList rfl (.inl rfl) rfl) rfl rfl)
  exact Block.properties_of_reads hread

theorem isUnlabelled_bareEnd (rows : List String) : (bareEnd rows).IsUnlabelled :=
  ⟨_, properties_bareEnd rows, rfl⟩

theorem eq_of_gives_bareEnd {rows : List String} {ending : String}
    (h : (bareEnd rows).Gives "end" ending) : ending = "cs=1" := by
  obtain ⟨_, hproperties, hending⟩ := h
  cases (properties_bareEnd rows).symm.trans hproperties
  exact (Literal.str.inj (Option.some.inj hending)).symm

/-- A phase without a label is put under the next number. -/
theorem addBlock_bareEnd (draft : Draft) (rows : List String) :
    draft.addBlock (bareEnd rows) =
      .ok { draft with
        script := { draft.script with
          phases := putPhase (Draft.numbered "phase" draft.unnamedPhases) "cs=1" rows
            draft.script.phases }
        unnamedPhases := draft.unnamedPhases + 1 } := by
  simp only [Draft.addBlock, Draft.addPhase, properties_bareEnd]
  rfl

theorem blocksOf_phaseTaken :
    blocksOf (cleanLines phaseTaken.toList) =
      .ok (phaseTakenBefore ++ [bareEnd ["TEST cs | TEST"]]) := by
  have hlines : cleanLines phaseTaken.toList = phaseTakenLines.map String.toList := by
    rw [phaseTaken, phaseTakenLines]
    decide +kernel
  rw [hlines]
  exact blocksOf_cons rfl rfl <| blocksOf_cons rfl rfl <| blocksOf_cons rfl rfl blocksOf_nil

open Literal in
/-- The text can be taken as far as its last block. -/
theorem reaches_phaseTaken :
    Reaches phaseTaken phaseTakenDeclarations phaseTakenDraft (bareEnd ["TEST cs | TEST"]) := by
  have hread : Reads "\x7b'label': 'phase2', 'end': 'us=1'\x7d".toList
      (.dict [(.str "label", .str "phase2"), (.str "end", .str "us=1")]) [] :=
    .dict rfl
      (.more rfl (.quoted "label" ": 'phase2', 'end': 'us=1'\x7d".toList rfl (.inl rfl) rfl) rfl rfl
        (.quoted "phase2" ", 'end': 'us=1'\x7d".toList rfl (.inl rfl) rfl) rfl
        (.last rfl (.quoted "end" ": 'us=1'\x7d".toList rfl (.inl rfl) rfl) rfl rfl
          (.quoted "us=1" "\x7d".toList rfl (.inl rfl) rfl) rfl rfl))
  refine ⟨phaseTakenBefore, [], blocksOf_phaseTaken, ?_, ?_⟩
  · have hproperties : (Block.mk .phase (some "\x7b'label': 'phase2', 'end': 'us=1'\x7d")
        ["US us | US"]).properties =
          .ok ⟨[(.str "label", .str "phase2"), (.str "end", .str "us=1")]⟩ :=
      Block.properties_of_reads hread
    simp only [phaseTakenBefore, List.mapM_cons, Block.declaration?, properties_bareEnd,
      hproperties]
    rfl
  · rw [phaseTakenBefore, List.foldlM_cons]
    refine bind_eq_ok.2 ⟨_, addBlock_bareEnd _ _, ?_⟩
    rw [List.foldlM_cons]
    refine bind_eq_ok.2 ⟨_, Draft.addBlock_phase hread, ?_⟩
    have hnumber : Draft.numbered "phase" Draft.empty.unnamedPhases = "phase1" := numbered_phase_zero
    rw [hnumber]
    rfl

/-- The pairings, and two runs of which the first has the label that the other one would have. -/
def runTaken : String := pairings ++ "\n" ++ "@run \x7b'label': 'run1'\x7d\n@run"

/-- The draft that the blocks of `runTaken` before the last lead to. -/
def runTakenDraft : Draft :=
  { pairingDraft with
    script := { pairingDraft.script with
      runs := [pairingRun, { pairingRun with label := "run1" }] } }

open Literal in
/-- The text can be taken as far as its last block. -/
theorem reaches_runTaken :
    ∃ declarations, Reaches runTaken declarations runTakenDraft ⟨.run, none, []⟩ := by
  have hlines : cleanLines "@run \x7b'label': 'run1'\x7d\n@run".toList =
      ["@run \x7b'label': 'run1'\x7d".toList, "@run".toList] := by decide +kernel
  have hblocks : blocksOf (cleanLines "@run \x7b'label': 'run1'\x7d\n@run".toList) =
      .ok [⟨.run, some "\x7b'label': 'run1'\x7d", []⟩, ⟨.run, none, []⟩] := by
    rw [hlines]
    exact blocksOf_cons rfl rfl (blocksOf_cons rfl rfl blocksOf_nil)
  have hread : Reads "\x7b'label': 'run1'\x7d".toList (.dict [(.str "label", .str "run1")]) [] :=
    .dict rfl (.last rfl (.quoted "label" ": 'run1'\x7d".toList rfl (.inl rfl) rfl) rfl rfl
      (.quoted "run1" "\x7d".toList rfl (.inl rfl) rfl) rfl rfl)
  have hdraft : (pairingBlocks ++ [Block.mk .run (some "\x7b'label': 'run1'\x7d") []]).foldlM
      Draft.addBlock Draft.empty = .ok runTakenDraft := by
    rw [List.foldlM_append]
    refine bind_eq_ok.2 ⟨_, foldlM_pairingBlocks, ?_⟩
    rw [List.foldlM_cons]
    exact bind_eq_ok.2
      ⟨_, Draft.addBlock_pairingRun hread rfl PhaseText.compile_pairing rfl rfl, rfl⟩
  obtain ⟨declarations, hdeclarations, -⟩ := Draft.holds_of_foldlM hdraft
  refine ⟨declarations, _, [], ?_, hdeclarations, hdraft⟩
  rw [List.append_assoc]
  exact blocksOf_pairings_newline ⟨_, _, hlines, rfl⟩ hblocks

theorem isUnlabelled_bareRun : (Block.mk .run none []).IsUnlabelled := ⟨Dict.empty, rfl, rfl⟩

theorem addBlock_runTaken :
    runTakenDraft.addBlock ⟨.run, none, []⟩ = .error (.duplicateRunLabel "run1") :=
  Draft.addRun_eq_duplicateRunLabel.2 ⟨Dict.empty, none, rfl, rfl, rfl, numbered_run_zero,
    List.mem_cons_of_mem _ List.mem_cons_self⟩

/-- A text in which no run has the label of the run without one. -/
theorem reaches_pairingsRestated :
    ∃ declarations, Reaches pairingsRestated declarations restatedBefore ⟨.run, none, []⟩ := by
  obtain ⟨declarations, hdeclarations, -⟩ := Draft.holds_of_foldlM foldlM_blocksBeforeRestated
  exact ⟨declarations, _, [], blocksOf_pairingsRestated, hdeclarations, foldlM_blocksBeforeRestated⟩

/-- The first phase without a label is a new one.  The second goes on with the phase that took its
number and replaces its end.  A run without a label is a new one, or refused if its number is
taken. -/
theorem generated_labels_taken :
    (∃ later, Draft.empty.addBlock (bareEnd ["CS cs | CS"]) = .ok later ∧
      later.script.phases = [⟨"phase1", "cs=1", ["CS cs | CS"]⟩]) ∧
    (∃ later phase, phaseTakenDraft.addBlock (bareEnd ["TEST cs | TEST"]) = .ok later ∧
      phase ∈ phaseTakenDraft.script.phases ∧ phase.label = "phase2" ∧ phase.ending = "us=1" ∧
      ⟨"phase2", "cs=1", phase.rows ++ ["TEST cs | TEST"]⟩ ∈ later.script.phases) ∧
    (∃ later run, restatedBefore.addBlock ⟨.run, none, []⟩ = .ok later ∧
      run.label = "run1" ∧ later.script.runs = restatedBefore.script.runs ++ [run]) ∧
    Script.parse runTaken = .error (.duplicateRunLabel "run1") ∧
    ∃ declarations, LabelGiven Declaration.runLabel? declarations "run1" := by
  obtain ⟨hphases, -, -, -⟩ := generated_labels phaseTaken
  obtain ⟨-, haccepted, -, -⟩ := generated_labels pairingsRestated
  obtain ⟨-, -, hrefused, hparse⟩ := generated_labels runTaken
  obtain ⟨declarations, hrun⟩ := reaches_runTaken
  refine ⟨?_, ?_, ?_, (hparse _).2 ⟨_, _, _, hrun, addBlock_runTaken⟩, declarations,
    (hrefused _ _ _ _ hrun rfl isUnlabelled_bareRun addBlock_runTaken).2⟩
  · have hreaches : Reaches phaseTaken [] Draft.empty (bareEnd ["CS cs | CS"]) :=
      ⟨[], _, blocksOf_phaseTaken, rfl, rfl⟩
    have hadd := addBlock_bareEnd Draft.empty ["CS cs | CS"]
    obtain ⟨ending, hending, ⟨-, hnew⟩ | ⟨⟨_, hmem, -⟩, -⟩⟩ :=
      hphases _ _ _ _ hreaches rfl (isUnlabelled_bareEnd _) hadd
    · have hnumber : nextLabel "phase" Declaration.phaseLabel? [] = "phase1" := numbered_phase_zero
      rw [hnumber, eq_of_gives_bareEnd hending] at hnew
      exact ⟨_, hadd, hnew⟩
    · cases hmem
  · have hadd := addBlock_bareEnd phaseTakenDraft ["TEST cs | TEST"]
    have hnumber : nextLabel "phase" Declaration.phaseLabel? phaseTakenDeclarations = "phase2" :=
      numbered_phase_one
    have htaken := hphases _ _ _ _ reaches_phaseTaken rfl (isUnlabelled_bareEnd _) hadd
    rw [hnumber] at htaken
    obtain ⟨ending, hending, ⟨hnot, -⟩ | ⟨-, front, phase, back, hdraft, hlabel, hlater⟩⟩ := htaken
    · have hgiven : LabelGiven Declaration.phaseLabel? phaseTakenDeclarations "phase2" :=
        ⟨_, List.mem_cons_of_mem _ List.mem_cons_self, rfl⟩
      exact absurd hgiven hnot
    · have hmem : phase ∈ phaseTakenDraft.script.phases :=
        hdraft ▸ List.mem_append_right _ List.mem_cons_self
      have hold : ∀ phase ∈ phaseTakenDraft.script.phases, phase.label = "phase2" →
          phase.ending = "us=1" := by decide
      refine ⟨_, phase, hadd, hmem, hlabel, hold phase hmem hlabel, ?_⟩
      rw [hlater, eq_of_gives_bareEnd hending]
      exact List.mem_append_right _ List.mem_cons_self
  · obtain ⟨declarations, hreaches⟩ := reaches_pairingsRestated
    obtain ⟨-, run, hlabel, hruns⟩ :=
      haccepted _ _ _ _ hreaches rfl isUnlabelled_bareRun addBlock_restatedBefore
    rw [← hreaches.numbered_unnamedRuns] at hlabel
    exact ⟨_, run, addBlock_restatedBefore, hlabel.trans numbered_run_zero, hruns⟩

/-- Whether each phase without a label is a new one and changes no other. -/
def PhaseLabelsFresh (text : String) : Prop :=
  ∀ declarations draft block later, Reaches text declarations draft block →
    block.keyword = .phase → block.IsUnlabelled → draft.addBlock block = .ok later →
    ∃ phase, later.script.phases = draft.script.phases ++ [phase]

/-- Whether no run without a label is refused for its label. -/
def RunLabelsFresh (text : String) : Prop :=
  ∀ declarations draft block label, Reaches text declarations draft block →
    block.keyword = .run → block.IsUnlabelled →
    draft.addBlock block ≠ .error (.duplicateRunLabel label)

/-- A number that was given as a label is not passed over. -/
theorem labels_not_fresh : ¬PhaseLabelsFresh phaseTaken ∧ ¬RunLabelsFresh runTaken := by
  constructor
  · intro hfresh
    obtain ⟨phase, hnew⟩ := hfresh _ _ _ _ reaches_phaseTaken rfl (isUnlabelled_bareEnd _)
      (addBlock_bareEnd phaseTakenDraft ["TEST cs | TEST"])
    have hnumber : Draft.numbered "phase" phaseTakenDraft.unnamedPhases = "phase2" :=
      numbered_phase_one
    rw [hnumber] at hnew
    have htwo : 2 = 3 := congrArg List.length hnew
    exact absurd htwo (by decide)
  · intro hfresh
    obtain ⟨declarations, hreaches⟩ := reaches_runTaken
    exact hfresh _ _ _ _ hreaches rfl isUnlabelled_bareRun addBlock_runTaken

end Script

end Conditioning
