import Conditioning.Proofs.Literal.Grammar
import Conditioning.Proofs.Script.Gather
import Conditioning.Proofs.Script.InRange

/-!
# The runs that a script declares

Every block that is accepted declares something by itself: some comment, some dicts
of settings, a part of a phase, a run, or a directive (`Block.declaration?`).  What
the blocks of a script come to is a matter of these declarations and their order.
The settings are the dicts merged, the phases are gathered from their parts, and a
run takes the settings and the phases of the declarations before it
(`DeclaredRun.Gives`).  Phases and runs without a label are numbered among
themselves.

A draft holds what the declarations so far come to (`Draft.Holds`).  One more block
adds one more declaration (`Draft.holds_of_addBlock`), so the script at the end holds
what all blocks declare.
-/

namespace Conditioning

/-! ## Declarations -/

/-- What a block declares. -/
inductive Declaration where
  | comment (lines : List String)
  | settings (dicts : List Dict)
  /-- A part of a phase, under a label if one is given. -/
  | phase (label : Option String) (ending : String) (rows : List String)
  /-- A run of the phases that it names, under a label if one is given. -/
  | run (label : Option String) (phases : List String)
  | directive (directive : Directive)

namespace Block

/-- What a block declares, if it can be read. -/
def declaration? (block : Block) : Option Declaration :=
  match block.keyword with
  | .comment => some (.comment block.lines)
  | .parameters => do
    let values ← (readLiterals block.arguments).toOption
    let dicts ← values.mapM Literal.asDict?
    return .settings dicts
  | .phase => do
    let properties ← block.properties.toOption
    let label ← (Script.textProperty properties "label" .phase).toOption
    let ending ← (Script.textProperty properties "end" .phase).toOption
    return .phase label (← ending) block.body
  | .run => do
    let properties ← block.properties.toOption
    let label ← (Script.textProperty properties "label" .run).toOption
    let phases ← (Script.phaseLabels (properties.get? "phases")).toOption
    return .run label phases
  | keyword => (Directive.parse keyword block.arguments).toOption.map .directive

end Block

/-- A run that is declared, after the declarations before it. -/
structure DeclaredRun where
  before : List Declaration
  label : String
  /-- The labels of the phases that it names. -/
  phases : List String

namespace Declaration

/-- The lines of comment that are declared. -/
def lines : Declaration → List String
  | comment lines => lines
  | _ => []

/-- The dicts of settings that are declared. -/
def dicts : Declaration → List Dict
  | settings dicts => dicts
  | _ => []

/-- The directive that is declared. -/
def directive? : Declaration → Option Directive
  | directive found => some found
  | _ => none

/-- The label, which may be left out, of a phase that is declared. -/
def phaseLabel? : Declaration → Option (Option String)
  | phase label _ _ => some label
  | _ => none

/-- The label, which may be left out, of a run that is declared. -/
def runLabel? : Declaration → Option (Option String)
  | run label _ => some label
  | _ => none

/-- Whether a phase without a label is declared. -/
def isUnlabelledPhase (declaration : Declaration) : Bool := declaration.phaseLabel? == some none

/-- Whether a run without a label is declared. -/
def isUnlabelledRun (declaration : Declaration) : Bool := declaration.runLabel? == some none

/-- The part of a phase that is declared after other declarations. -/
def part? (before : List Declaration) : Declaration → Option PhaseText
  | phase label ending rows =>
    some ⟨label.getD (Draft.numbered "phase" (before.countP isUnlabelledPhase)), ending, rows⟩
  | _ => none

/-- The run that is declared after other declarations. -/
def run? (before : List Declaration) : Declaration → Option DeclaredRun
  | run label phases =>
    some ⟨before, label.getD (Draft.numbered "run" (before.countP isUnlabelledRun)), phases⟩
  | _ => none

end Declaration

/-- The members of a list, each with those before it. -/
def preceded {α : Type} (before : List α) : List α → List (List α × α)
  | [] => []
  | x :: xs => (before, x) :: preceded (before ++ [x]) xs

theorem preceded_append_singleton {α : Type} (before xs : List α) (x : α) :
    preceded before (xs ++ [x]) = preceded before xs ++ [(before ++ xs, x)] := by
  induction xs generalizing before with
  | nil => simp [preceded]
  | cons y ys ih => simp [preceded, ih]

/-- The settings that declarations come to: all dicts merged in order. -/
def settingsOf (declarations : List Declaration) : Parameters :=
  ⟨(declarations.flatMap Declaration.dicts).foldl Dict.merge Dict.empty⟩

/-- The parts of phases that are declared. -/
def partsOf (declarations : List Declaration) : List PhaseText :=
  (preceded [] declarations).filterMap fun place => place.2.part? place.1

/-- The phases that declarations come to. -/
def phasesOf (declarations : List Declaration) : List PhaseText :=
  PhaseText.gather (partsOf declarations)

/-- The runs that are declared. -/
def runsOf (declarations : List Declaration) : List DeclaredRun :=
  (preceded [] declarations).filterMap fun place => place.2.run? place.1

namespace DeclaredRun

/-- The phases of a run: those that it names, in the order in which it names them, or all of them if
it names none. -/
def Selects (declared : DeclaredRun) (texts : List PhaseText) : Prop :=
  if declared.phases = [] then texts = phasesOf declared.before
  else List.Forall₂ (fun label text => text ∈ phasesOf declared.before ∧ text.label = label)
    declared.phases texts

/-- The run is what is declared. -/
structure Gives (declared : DeclaredRun) (run : Run) : Prop where
  label : run.label = declared.label
  mechanism : Mechanism.ofParameters (settingsOf declared.before) = .ok run.mechanism
  subjects : (settingsOf declared.before).subjects = .ok run.subjects
  phases : ∃ texts, declared.Selects texts ∧
    (texts.mapM fun text => text.compile run.mechanism.vocabulary) = .ok run.world.phases

end DeclaredRun

/-! ## One more declaration -/

section

variable (declarations : List Declaration) (declaration : Declaration)

theorem partsOf_append_singleton :
    partsOf (declarations ++ [declaration]) =
      partsOf declarations ++ (declaration.part? declarations).toList := by
  rw [partsOf, preceded_append_singleton, List.filterMap_append, List.nil_append, partsOf]
  cases h : declaration.part? declarations <;> simp [h]

theorem runsOf_append_singleton :
    runsOf (declarations ++ [declaration]) =
      runsOf declarations ++ (declaration.run? declarations).toList := by
  rw [runsOf, preceded_append_singleton, List.filterMap_append, List.nil_append, runsOf]
  cases h : declaration.run? declarations <;> simp [h]

theorem settingsOf_append_singleton :
    settingsOf (declarations ++ [declaration]) =
      ⟨declaration.dicts.foldl Dict.merge (settingsOf declarations).values⟩ := by
  rw [settingsOf, List.flatMap_append, List.flatMap_singleton, List.foldl_append]
  rfl

end

/-! ## What a draft holds -/

/-- A draft holds what some declarations come to. -/
structure Draft.Holds (declarations : List Declaration) (draft : Draft) : Prop where
  comment : draft.script.comment = declarations.flatMap Declaration.lines
  parameters : draft.script.parameters = settingsOf declarations
  phases : draft.script.phases = phasesOf declarations
  runs : List.Forall₂ DeclaredRun.Gives (runsOf declarations) draft.script.runs
  directives : draft.script.directives = declarations.filterMap Declaration.directive?
  unnamedPhases : draft.unnamedPhases = declarations.countP Declaration.isUnlabelledPhase
  unnamedRuns : draft.unnamedRuns = declarations.countP Declaration.isUnlabelledRun

namespace Script

theorem mergeSettings_eq_ok {parameters later : Parameters} {value : Literal}
    (h : mergeSettings parameters value = .ok later) :
    ∃ d, value.asDict? = some d ∧ later.values = parameters.values.merge d := by
  unfold mergeSettings at h
  split at h
  next d hvalue =>
    unfold Parameters.merge? at h
    split at h
    next => cases h
    next hnone =>
      cases h
      exact ⟨d, hvalue, by rw [parameters.merge_of_refusal?_eq_none hnone]⟩
  next => cases h

theorem foldlM_mergeSettings {parameters later : Parameters} {values : List Literal}
    (h : values.foldlM mergeSettings parameters = .ok later) :
    ∃ dicts, values.mapM Literal.asDict? = some dicts ∧
      later.values = dicts.foldl Dict.merge parameters.values := by
  induction values generalizing parameters with
  | nil =>
    cases h
    exact ⟨[], rfl, rfl⟩
  | cons value values ih =>
    rw [List.foldlM_cons] at h
    obtain ⟨middle, hmiddle, h⟩ := bind_eq_ok.1 h
    obtain ⟨d, hvalue, hd⟩ := mergeSettings_eq_ok hmiddle
    obtain ⟨dicts, hvalues, hdicts⟩ := ih h
    refine ⟨d :: dicts, ?_, by rw [hdicts, hd, List.foldl_cons]⟩
    rw [List.mapM_cons, hvalue, hvalues]
    rfl

theorem forall₂_of_selectPhases {script : Script} {labels : List String} {texts : List PhaseText}
    (h : script.selectPhases labels = .ok texts) :
    if labels = [] then texts = script.phases
    else List.Forall₂ (fun label text => text ∈ script.phases ∧ text.label = label) labels texts := by
  unfold selectPhases at h
  split at h
  next hempty =>
    cases h
    rw [if_pos (List.isEmpty_iff.1 hempty)]
  next hempty =>
    rw [if_neg fun hnil => hempty (List.isEmpty_iff.2 hnil)]
    refine (mapM_eq_ok.1 h).imp fun label text htext => ?_
    split at htext
    next found hfound =>
      cases htext
      exact ⟨List.mem_of_find?_eq_some hfound, by simpa using List.find?_some hfound⟩
    next => cases htext

end Script

namespace Draft

/-- What one more declaration adds to a draft. -/
structure Adds (declarations : List Declaration) (declaration : Declaration) (draft later : Draft) :
    Prop where
  comment : later.script.comment = draft.script.comment ++ declaration.lines
  parameters : later.script.parameters.values =
    declaration.dicts.foldl Dict.merge draft.script.parameters.values
  phases : later.script.phases = (declaration.part? declarations).elim draft.script.phases
    fun part => Script.putPhase part.label part.ending part.rows draft.script.phases
  runs : ∃ runs, List.Forall₂ DeclaredRun.Gives (declaration.run? declarations).toList runs ∧
    later.script.runs = draft.script.runs ++ runs
  directives : later.script.directives = draft.script.directives ++ declaration.directive?.toList
  unnamedPhases : later.unnamedPhases =
    draft.unnamedPhases + if declaration.isUnlabelledPhase then 1 else 0
  unnamedRuns : later.unnamedRuns =
    draft.unnamedRuns + if declaration.isUnlabelledRun then 1 else 0

variable {declarations : List Declaration} {declaration : Declaration} {draft later : Draft}
  {block : Block}

theorem Holds.append_singleton (h : draft.Holds declarations)
    (hadds : Adds declarations declaration draft later) :
    later.Holds (declarations ++ [declaration]) where
  comment := by
    rw [hadds.comment, h.comment, List.flatMap_append, List.flatMap_singleton]
  parameters := by
    rw [settingsOf_append_singleton, ← h.parameters, ← hadds.parameters]
  phases := by
    rw [hadds.phases, h.phases, phasesOf, phasesOf, partsOf_append_singleton]
    cases declaration.part? declarations with
    | none => rw [Option.toList_none, List.append_nil]; rfl
    | some part => exact PhaseText.putPhase_gather
  runs := by
    obtain ⟨runs, hruns, heq⟩ := hadds.runs
    rw [heq, runsOf_append_singleton]
    exact List.rel_append h.runs hruns
  directives := by
    rw [hadds.directives, h.directives, List.filterMap_append]
    cases hd : declaration.directive? <;> simp [hd]
  unnamedPhases := by
    rw [hadds.unnamedPhases, h.unnamedPhases, List.countP_append, List.countP_singleton]
  unnamedRuns := by
    rw [hadds.unnamedRuns, h.unnamedRuns, List.countP_append, List.countP_singleton]

theorem adds_of_addParameters (h : draft.addParameters block = .ok later)
    (hkeyword : block.keyword = .parameters) :
    ∃ declaration, block.declaration? = some declaration ∧
      Adds declarations declaration draft later := by
  obtain ⟨values, parameters, hvalues, hparameters, rfl⟩ := addParameters_eq_ok h
  obtain ⟨dicts, hdicts, hmerged⟩ := Script.foldlM_mergeSettings hparameters
  refine ⟨.settings dicts, ?_, ?_⟩
  · simp [Block.declaration?, hkeyword, hvalues, hdicts, Except.toOption]
  · exact ⟨(List.append_nil _).symm, hmerged, rfl, ⟨[], .nil, (List.append_nil _).symm⟩,
      (List.append_nil _).symm, rfl, rfl⟩

theorem adds_of_addPhase (hholds : draft.Holds declarations) (h : draft.addPhase block = .ok later)
    (hkeyword : block.keyword = .phase) :
    ∃ declaration, block.declaration? = some declaration ∧
      Adds declarations declaration draft later := by
  obtain ⟨properties, given, ending, hproperties, hgiven, hending, rfl⟩ := addPhase_eq_ok h
  refine ⟨.phase given ending block.body, ?_, ?_⟩
  · simp [Block.declaration?, hkeyword, hproperties, hgiven, hending, Except.toOption]
  · refine ⟨(List.append_nil _).symm, rfl, ?_, ⟨[], .nil, (List.append_nil _).symm⟩,
      (List.append_nil _).symm, ?_, rfl⟩
    · rw [hholds.unnamedPhases]
      rfl
    · cases given <;> rfl

theorem adds_of_addRun (hholds : draft.Holds declarations) (h : draft.addRun block = .ok later)
    (hkeyword : block.keyword = .run) :
    ∃ declaration, block.declaration? = some declaration ∧
      Adds declarations declaration draft later := by
  obtain ⟨properties, given, run, hproperties, hgiven, hrun, -, rfl⟩ := addRun_eq_ok h
  obtain ⟨labels, texts, hlabels, htexts, hmechanism, hphases, -, hsubjects, hlabel⟩ :=
    Script.buildRun_eq_ok hrun
  rw [hholds.unnamedRuns] at hlabel
  rw [hholds.parameters] at hmechanism hsubjects
  have hselects := Script.forall₂_of_selectPhases htexts
  rw [hholds.phases] at hselects
  refine ⟨.run given labels, ?_, ?_⟩
  · simp [Block.declaration?, hkeyword, hproperties, hgiven, hlabels, Except.toOption]
  · refine ⟨(List.append_nil _).symm, rfl, rfl, ⟨[run], ?_, rfl⟩, (List.append_nil _).symm, rfl, ?_⟩
    · exact .cons ⟨hlabel, hmechanism, hsubjects, texts, hselects, hphases⟩ .nil
    · cases given <;> rfl

theorem adds_of_addDirective (h : draft.addDirective block = .ok later)
    (hkeyword : block.declaration? =
      (Directive.parse block.keyword block.arguments).toOption.map .directive) :
    ∃ declaration, block.declaration? = some declaration ∧
      Adds declarations declaration draft later := by
  obtain ⟨directive, hdirective, rfl⟩ := addDirective_eq_ok h
  refine ⟨.directive directive, by rw [hkeyword, hdirective]; rfl, ?_⟩
  exact ⟨(List.append_nil _).symm, rfl, rfl, ⟨[], .nil, (List.append_nil _).symm⟩, rfl, rfl, rfl⟩

/-- One more block adds one more declaration. -/
theorem holds_of_addBlock (h : draft.Holds declarations) (hadd : draft.addBlock block = .ok later) :
    ∃ declaration, block.declaration? = some declaration ∧
      later.Holds (declarations ++ [declaration]) := by
  have hadds : ∃ declaration, block.declaration? = some declaration ∧
      Adds declarations declaration draft later := by
    unfold addBlock at hadd
    split at hadd
    next hkeyword =>
      cases hadd
      refine ⟨.comment block.lines, by rw [Block.declaration?, hkeyword], ?_⟩
      exact ⟨rfl, rfl, rfl, ⟨[], .nil, (List.append_nil _).symm⟩, (List.append_nil _).symm, rfl, rfl⟩
    next hkeyword => exact adds_of_addParameters hadd hkeyword
    next hkeyword => exact adds_of_addPhase h hadd hkeyword
    next hkeyword => exact adds_of_addRun h hadd hkeyword
    next hcomment hparameters hphase hrun =>
      refine adds_of_addDirective hadd ?_
      unfold Block.declaration?
      split
      next h => exact absurd h hcomment
      next h => exact absurd h hparameters
      next h => exact absurd h hphase
      next h => exact absurd h hrun
      next => rfl
  obtain ⟨declaration, hdeclaration, hadds⟩ := hadds
  exact ⟨declaration, hdeclaration, h.append_singleton hadds⟩

theorem holds_empty : Draft.empty.Holds [] where
  comment := rfl
  parameters := rfl
  phases := rfl
  runs := .nil
  directives := rfl
  unnamedPhases := rfl
  unnamedRuns := rfl

/-- After some blocks a draft holds what they declare. -/
theorem holds_of_foldlM {blocks : List Block}
    (h : blocks.foldlM addBlock Draft.empty = .ok later) :
    ∃ declarations, blocks.mapM Block.declaration? = some declarations ∧
      later.Holds declarations := by
  induction blocks using List.reverseRecOn generalizing later with
  | nil =>
    cases h
    exact ⟨[], rfl, holds_empty⟩
  | append_singleton blocks block ih =>
    rw [List.foldlM_append] at h
    obtain ⟨draft, hdraft, h⟩ := bind_eq_ok.1 h
    rw [List.foldlM_cons] at h
    obtain ⟨_, hadd, h⟩ := bind_eq_ok.1 h
    cases h
    obtain ⟨declarations, hdeclarations, hholds⟩ := ih hdraft
    obtain ⟨declaration, hdeclaration, hlater⟩ := holds_of_addBlock hholds hadd
    refine ⟨declarations ++ [declaration], ?_, hlater⟩
    rw [List.mapM_append, hdeclarations, List.mapM_cons, hdeclaration]
    rfl

end Draft

/-- A run without properties is built under the next number, which no run may have. -/
theorem Draft.addBlock_bareRun {draft : Draft} {run : Run}
    (hfresh : (draft.script.runs.any fun run =>
      run.label == Draft.numbered "run" draft.unnamedRuns) = false)
    (hrun : draft.script.buildRun (Draft.numbered "run" draft.unnamedRuns) none = .ok run) :
    draft.addBlock ⟨.run, none, []⟩ =
      .ok { draft with
        script := { draft.script with runs := draft.script.runs ++ [run] }
        unnamedRuns := draft.unnamedRuns + 1 } := by
  refine bind_eq_ok.2 ⟨Dict.empty, rfl, bind_eq_ok.2 ⟨(), rfl, bind_eq_ok.2 ⟨none, rfl, ?_⟩⟩⟩
  exact (if_neg (Bool.eq_false_iff.1 hfresh)).trans (bind_eq_ok.2 ⟨run, hrun, rfl⟩)

/-! ## The runs of a script -/

/-- A run records as many subjects as it has. -/
theorem Run.length_subjects_of_simulate {run : Run} {budget : Nat} {g g' : Generator}
    {record : RunRecord} (h : run.simulate budget g = .ok (record, g')) :
    record.subjects.length = run.subjects := by
  rw [Run.simulate_eq] at h
  obtain ⟨records, hrecords, he⟩ := map_eq_ok.1 h
  cases he
  show records.length = _
  rw [← (mapM_eq_ok.1 hrecords).length_eq, Generator.length_splits]

namespace Script

/-- The runs of a script are those that its blocks declare, in order and under labels of their own:
each takes the settings and the phases as they stand where it is declared.  Settings that are given
again override those given before.  What is recorded of the runs is in the same order and under the
same labels, with as many subjects as each run has. -/
theorem runs_as_declared {text : String} {script : Script} (h : Script.parse text = .ok script) :
    ∃ blocks declarations, blocksOf (cleanLines text.toList) = .ok blocks ∧
      blocks.mapM Block.declaration? = some declarations ∧
      List.Forall₂ DeclaredRun.Gives (runsOf declarations) script.runs ∧
      (script.runs.map Run.label).Nodup ∧
      (∀ declared ∈ runsOf declarations, ∀ name, (settingsOf declared.before).get? name =
        Dict.last? (declared.before.flatMap Declaration.dicts) name) ∧
      ∀ budget seed experiment, script.simulate budget seed = .ok experiment →
        List.Forall₂ (fun run labelled => labelled.1 = run.label ∧
          labelled.2.subjects.length = run.subjects) script.runs experiment.runs := by
  have hnodup := nodup_labels_of_parse h
  obtain ⟨blocks, draft, hblocks, hdraft, rfl⟩ := parse_eq_ok h
  obtain ⟨declarations, hdeclarations, hholds⟩ := Draft.holds_of_foldlM hdraft
  refine ⟨blocks, declarations, hblocks, hdeclarations, hholds.runs, hnodup,
    fun declared _ name => Dict.get?_foldl_merge _ name, ?_⟩
  intro budget seed experiment hexperiment
  refine (forall₂_of_simulate hnodup hexperiment).imp ?_
  rintro run labelled ⟨hlabel, g, g', hsimulate⟩
  exact ⟨hlabel, Run.length_subjects_of_simulate hsimulate⟩

/-- What follows the pairings in `pairingsRestated`. -/
def restatedLines : List String := [
  "@parameters \x7b'mechanism': 'sarsa', 'subjects': 2\x7d",
  "@phase \x7b'label': 'pairing', 'end': 'us=1'\x7d",
  "@run"]

/-- The blocks of `pairingsRestated` before the last. -/
def blocksBeforeRestated : List Block := pairingBlocks ++ [
  ⟨.parameters, some "\x7b'mechanism': 'sarsa', 'subjects': 2\x7d", []⟩,
  ⟨.phase, some "\x7b'label': 'pairing', 'end': 'us=1'\x7d", []⟩]

/-- The pairings, and a run without a label after the mechanism and the end of the phase were
replaced and a second subject was asked for. -/
def pairingsRestated : String := pairings ++ "\n" ++ String.intercalate "\n" restatedLines

/-- The settings of the second run of `pairingsRestated`. -/
def restatedParameters : Parameters := ⟨⟨[
  (.str "mechanism", .str "sarsa"),
  (.str "behaviors", .list [.str "wait", .str "press"]),
  (.str "stimulus_elements", .list [.str "cs", .str "us"]),
  (.str "response_requirements", .dict [(.str "press", .str "cs")]),
  (.str "subjects", .int 2)]⟩⟩

/-- The second run of `pairingsRestated`. -/
def restatedRun : Run where
  label := Draft.numbered "run" 0
  world := Run.onePairing
  mechanism := { pairingRun.mechanism with rule := .expectedSarsa }
  subjects := 2

/-- The draft that the blocks of `pairingsRestated` before the last lead to. -/
def restatedBefore : Draft := { pairingDraft with
  script := { pairingDraft.script with
    parameters := restatedParameters
    phases := [⟨"pairing", "us=1", PhaseText.pairing.rows⟩] } }

/-- The draft that the blocks of `pairingsRestated` lead to. -/
def restatedDraft : Draft where
  script := { restatedBefore.script with runs := [pairingRun, restatedRun] }
  unnamedPhases := 0
  unnamedRuns := 1

theorem cleanLines_restatedLines :
    cleanLines (String.intercalate "\n" restatedLines).toList =
      restatedLines.map String.toList := by
  rw [restatedLines, cleanLines_intercalate]
  decide +kernel

theorem blocksOf_pairingsRestated :
    blocksOf (cleanLines pairingsRestated.toList) =
      .ok (blocksBeforeRestated ++ [⟨.run, none, []⟩]) := by
  rw [blocksBeforeRestated, List.append_assoc]
  refine blocksOf_pairings_newline ⟨_, _, cleanLines_restatedLines, rfl⟩ ?_
  rw [cleanLines_restatedLines]
  exact blocksOf_cons rfl rfl (blocksOf_cons rfl rfl (blocksOf_cons rfl rfl blocksOf_nil))

open Literal in
theorem foldlM_blocksBeforeRestated :
    blocksBeforeRestated.foldlM Draft.addBlock Draft.empty = .ok restatedBefore := by
  have hnumber : Reads " 2\x7d".toList (.int 2) "\x7d".toList :=
    reads_number (rfl : skipSpace " 2\x7d".toList = '2' :: "\x7d".toList) rfl rfl
  have hsettings : Reads "\x7b'mechanism': 'sarsa', 'subjects': 2\x7d".toList
      (.dict [(.str "mechanism", .str "sarsa"), (.str "subjects", .int 2)]) [] :=
    .dict rfl
      (.more rfl (.quoted "mechanism" ": 'sarsa', 'subjects': 2\x7d".toList rfl (.inl rfl) rfl) rfl
        rfl (.quoted "sarsa" ", 'subjects': 2\x7d".toList rfl (.inl rfl) rfl) rfl
        (.last rfl (.quoted "subjects" ": 2\x7d".toList rfl (.inl rfl) rfl) rfl rfl hnumber rfl rfl))
  have hphase : Reads "\x7b'label': 'pairing', 'end': 'us=1'\x7d".toList
      (.dict [(.str "label", .str "pairing"), (.str "end", .str "us=1")]) [] :=
    .dict rfl
      (.more rfl (.quoted "label" ": 'pairing', 'end': 'us=1'\x7d".toList rfl (.inl rfl) rfl) rfl rfl
        (.quoted "pairing" ", 'end': 'us=1'\x7d".toList rfl (.inl rfl) rfl) rfl
        (.last rfl (.quoted "end" ": 'us=1'\x7d".toList rfl (.inl rfl) rfl) rfl rfl
          (.quoted "us=1" "\x7d".toList rfl (.inl rfl) rfl) rfl rfl))
  rw [blocksBeforeRestated, List.foldlM_append]
  refine bind_eq_ok.2 ⟨_, foldlM_pairingBlocks, ?_⟩
  simp only [List.foldlM_cons, List.foldlM_nil]
  refine bind_eq_ok.2 ⟨_, Draft.addBlock_parameters hsettings rfl, ?_⟩
  exact bind_eq_ok.2 ⟨_, Draft.addBlock_phase hphase, rfl⟩

theorem addBlock_restatedBefore :
    restatedBefore.addBlock ⟨.run, none, []⟩ = .ok restatedDraft := by
  have hphases : (restatedBefore.script.phases.mapM fun text : PhaseText =>
      text.compile restatedRun.mechanism.vocabulary) = .ok Run.onePairing.phases :=
    mapM_eq_ok.2 (.cons (PhaseText.compile_pairingRows rfl) .nil)
  refine Draft.addBlock_bareRun (by decide +kernel) ?_
  exact buildRun_of_compile rfl rfl rfl rfl hphases rfl

theorem parse_pairingsRestated :
    Script.parse pairingsRestated = .ok restatedDraft.script := by
  refine bind_eq_ok.2 ⟨_, blocksOf_pairingsRestated, map_eq_ok.2 ⟨restatedDraft, ?_, rfl⟩⟩
  rw [List.foldlM_append]
  refine bind_eq_ok.2 ⟨_, foldlM_blocksBeforeRestated, ?_⟩
  rw [List.foldlM_cons]
  exact bind_eq_ok.2 ⟨_, addBlock_restatedBefore, rfl⟩

theorem numbered_run_zero : Draft.numbered "run" 0 = "run1" := by decide +kernel

/-- The first run keeps the settings and the end that were in force.  The second one is numbered and
takes those given last, among them another mechanism in place of the first. -/
theorem runs_as_declared_pairingsRestated :
    ∃ script declarations experiment, Script.parse pairingsRestated = .ok script ∧
      List.Forall₂ DeclaredRun.Gives (runsOf declarations) script.runs ∧
      script.runs.map Run.label = ["pairings", "run1"] ∧
      (script.runs.map fun run => run.mechanism.rule) = [.enquist, .expectedSarsa] ∧
      script.runs.map Run.subjects = [1, 2] ∧
      (script.runs.map fun run => run.world.phases.map fun phase => phase.ending.threshold) =
        [[2], [1]] ∧
      (∀ declared ∈ runsOf declarations, ∀ name, (settingsOf declared.before).get? name =
        Dict.last? (declared.before.flatMap Declaration.dicts) name) ∧
      script.simulate 5 1 = .ok experiment ∧ experiment.labels = ["pairings", "run1"] ∧
      (experiment.runs.map fun labelled => labelled.2.subjects.length) = [1, 2] := by
  obtain ⟨-, declarations, -, -, hruns, -, hsettings, hsimulate⟩ :=
    runs_as_declared parse_pairingsRestated
  have hsome : (restatedDraft.script.simulate 5 1).toOption.isSome = true := by decide +kernel
  obtain ⟨experiment, hexperiment⟩ := Option.isSome_iff_exists.1 hsome
  have hok := eq_ok_of_toOption_eq_some hexperiment
  have hrecords : experiment.labels = ["pairings", "run1"] ∧
      (experiment.runs.map fun labelled => labelled.2.subjects.length) = [1, 2] := by
    obtain ⟨runs⟩ := experiment
    obtain ⟨first, rest, ⟨hfirst, hone⟩, hrest, rfl⟩ :=
      List.forall₂_cons_left_iff.1 (hsimulate 5 1 _ hok)
    obtain ⟨second, _, ⟨hsecond, htwo⟩, hnil, rfl⟩ := List.forall₂_cons_left_iff.1 hrest
    cases hnil
    rw [Experiment.labels, List.map_cons, List.map_singleton, List.map_cons, List.map_singleton,
      hfirst, hsecond, hone, htwo, ← numbered_run_zero]
    exact ⟨rfl, rfl⟩
  refine ⟨_, declarations, experiment, parse_pairingsRestated, hruns, ?_, rfl, rfl, rfl, hsettings,
    hok, hrecords⟩
  rw [← numbered_run_zero]
  rfl

end Script

end Conditioning
