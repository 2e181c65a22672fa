import Conditioning.Proofs.Literal.Reading
import Conditioning.Proofs.Phase.Compiled
import Conditioning.Proofs.Run.Replay
import Conditioning.Proofs.Script.Blocks
import Conditioning.Script.Assembly
import Mathlib.Data.List.Nodup

/-!
# How a script grows

Every block that is accepted leaves the runs and the directives before it as they
are and adds at most one of them at the end (`Draft.addBlock_cases`): settings and
phases may change later, but a run holds what was in force where it is declared.
So the runs of a script are those of its beginning and then others
(`Draft.Grows`).  No two runs have the same label, and each run was built from
some settings and phases (`Draft.Sound`).
-/

namespace Conditioning

/-! ## Runs -/

namespace Script

/-- What is known of a run because it was built. -/
structure Builds (script : Script) (run : Run) : Prop where
  mechanism : Mechanism.ofParameters script.parameters = .ok run.mechanism
  phases : ∃ texts : List PhaseText,
    (texts.mapM fun text => text.compile run.mechanism.vocabulary) = .ok run.world.phases
  phases_ne_nil : run.world.phases ≠ []

/-- Every part of a run that was built comes from the settings or the phases. -/
theorem buildRun_eq_ok {script : Script} {label : String} {choice : Option Literal} {run : Run}
    (h : script.buildRun label choice = .ok run) :
    ∃ labels texts, phaseLabels choice = .ok labels ∧ script.selectPhases labels = .ok texts ∧
      Mechanism.ofParameters script.parameters = .ok run.mechanism ∧
      (texts.mapM fun text => text.compile run.mechanism.vocabulary) = .ok run.world.phases ∧
      run.world.phases ≠ [] ∧ script.parameters.subjects = .ok run.subjects ∧
      run.label = label := by
  unfold buildRun at h
  obtain ⟨labels, hlabels, h⟩ := bind_eq_ok.1 h
  obtain ⟨texts, htexts, h⟩ := bind_eq_ok.1 h
  obtain ⟨mechanism, hmechanism, h⟩ := bind_eq_ok.1 h
  obtain ⟨phases, hphases, h⟩ := bind_eq_ok.1 h
  obtain ⟨world, hworld, h⟩ := bind_eq_ok.1 h
  obtain ⟨subjects, hsubjects, h⟩ := bind_eq_ok.1 h
  cases h
  unfold World.ofPhases at hworld
  split at hworld
  next => cases hworld
  next hne =>
    cases hworld
    exact ⟨labels, texts, hlabels, htexts, hmechanism, hphases,
      fun hnil => hne (List.isEmpty_iff.2 hnil), hsubjects, rfl⟩

theorem builds_of_buildRun {script : Script} {label : String} {choice : Option Literal} {run : Run}
    (h : script.buildRun label choice = .ok run) : run.label = label ∧ script.Builds run := by
  obtain ⟨-, texts, -, -, hmechanism, hphases, hne, -, hlabel⟩ := buildRun_eq_ok h
  exact ⟨hlabel, hmechanism, ⟨texts, hphases⟩, hne⟩

end Script

/-! ## Blocks -/

namespace Draft

variable {draft later : Draft} {block : Block}

/-- The label that comes after `count` labels of a word that were not given. -/
def numbered (word : String) (count : Nat) : String := word ++ Decimal.naturalText (count + 1)

theorem getD_numbered (given : Option String) (word : String) (count : Nat) :
    given.getD (word ++ Decimal.naturalText (if given.isSome then count else count + 1)) =
      given.getD (numbered word count) := by
  cases given <;> rfl

/-- A block of settings is read and merged. -/
theorem addParameters_eq_ok (h : draft.addParameters block = .ok later) :
    ∃ values parameters, readLiterals block.arguments = .ok values ∧
      values.foldlM Script.mergeSettings draft.script.parameters = .ok parameters ∧
      later = { draft with script := { draft.script with parameters } } := by
  obtain ⟨values, hvalues, h⟩ := bind_eq_ok.1 h
  obtain ⟨parameters, hparameters, h⟩ := bind_eq_ok.1 h
  cases h
  exact ⟨values, parameters, hvalues, hparameters, rfl⟩

/-- A block of a phase is put under the label that it gives, or under the next number. -/
theorem addPhase_eq_ok (h : draft.addPhase block = .ok later) :
    ∃ properties given ending, block.properties = .ok properties ∧
      Script.textProperty properties "label" .phase = .ok given ∧
      Script.textProperty properties "end" .phase = .ok (some ending) ∧
      later = { draft with
        script := { draft.script with
          phases := Script.putPhase (given.getD (numbered "phase" draft.unnamedPhases)) ending
            block.body draft.script.phases }
        unnamedPhases := if given.isSome then draft.unnamedPhases else draft.unnamedPhases + 1 } := by
  unfold addPhase at h
  obtain ⟨properties, hproperties, h⟩ := bind_eq_ok.1 h
  obtain ⟨given, hgiven, h⟩ := bind_eq_ok.1 h
  obtain ⟨ending, hending, h⟩ := bind_eq_ok.1 h
  split at h
  next => cases h
  next ending =>
    obtain ⟨-, -, h⟩ := bind_eq_ok.1 h
    cases h
    refine ⟨properties, given, ending, hproperties, hgiven, hending, ?_⟩
    rw [getD_numbered]

/-- A run is built under the label that its block gives, or under the next number, which no run may
have. -/
theorem addRun_eq_ok (h : draft.addRun block = .ok later) :
    ∃ properties given run, block.properties = .ok properties ∧
      Script.textProperty properties "label" .run = .ok given ∧
      draft.script.buildRun (given.getD (numbered "run" draft.unnamedRuns))
        (properties.get? "phases") = .ok run ∧
      run.label ∉ draft.script.runs.map Run.label ∧
      later = { draft with
        script := { draft.script with runs := draft.script.runs ++ [run] }
        unnamedRuns := if given.isSome then draft.unnamedRuns else draft.unnamedRuns + 1 } := by
  unfold addRun at h
  obtain ⟨properties, hproperties, h⟩ := bind_eq_ok.1 h
  obtain ⟨-, -, h⟩ := bind_eq_ok.1 h
  obtain ⟨given, hgiven, h⟩ := bind_eq_ok.1 h
  simp only [getD_numbered] at h
  split at h
  next => cases h
  next hfresh =>
    obtain ⟨run, hrun, h⟩ := bind_eq_ok.1 h
    cases h
    refine ⟨properties, given, run, hproperties, hgiven, hrun, ?_, rfl⟩
    rw [(Script.builds_of_buildRun hrun).1]
    simpa using hfresh

theorem addDirective_eq_ok (h : draft.addDirective block = .ok later) :
    ∃ directive, Directive.parse block.keyword block.arguments = .ok directive ∧
      later = { draft with
        script := { draft.script with directives := draft.script.directives ++ [directive] } } := by
  obtain ⟨directive, hdirective, h⟩ := bind_eq_ok.1 h
  cases h
  exact ⟨directive, hdirective, rfl⟩

/-- A block adds a run, or a directive, or neither. -/
theorem addBlock_cases (h : draft.addBlock block = .ok later) :
    (later.script.runs = draft.script.runs ∧
      later.script.directives = draft.script.directives) ∨
    (∃ run, draft.script.Builds run ∧ run.label ∉ draft.script.runs.map Run.label ∧
      later.script.runs = draft.script.runs ++ [run] ∧
      later.script.directives = draft.script.directives) ∨
    (∃ directive, later.script.runs = draft.script.runs ∧
      later.script.directives = draft.script.directives ++ [directive]) := by
  unfold addBlock at h
  split at h
  next =>
    cases h
    exact .inl ⟨rfl, rfl⟩
  next =>
    obtain ⟨_, parameters, -, -, rfl⟩ := addParameters_eq_ok h
    exact .inl ⟨rfl, rfl⟩
  next =>
    obtain ⟨_, given, ending, -, -, -, rfl⟩ := addPhase_eq_ok h
    exact .inl ⟨rfl, rfl⟩
  next =>
    obtain ⟨properties, given, run, -, -, hrun, hfresh, rfl⟩ := addRun_eq_ok h
    exact .inr (.inl ⟨run, (Script.builds_of_buildRun hrun).2, hfresh, rfl, rfl⟩)
  next =>
    obtain ⟨directive, -, rfl⟩ := addDirective_eq_ok h
    exact .inr (.inr ⟨directive, rfl, rfl⟩)

/-! ## Scripts -/

/-- A script begins with the runs and the directives of another. -/
structure Grows (draft later : Draft) : Prop where
  runs : draft.script.runs <+: later.script.runs
  directives : draft.script.directives <+: later.script.directives

theorem Grows.trans {middle : Draft} (h : draft.Grows middle) (h' : middle.Grows later) :
    draft.Grows later :=
  ⟨h.runs.trans h'.runs, h.directives.trans h'.directives⟩

theorem grows_of_addBlock (h : draft.addBlock block = .ok later) : draft.Grows later := by
  obtain ⟨hruns, hdirectives⟩ | ⟨run, -, -, hruns, hdirectives⟩ | ⟨directive, hruns, hdirectives⟩ :=
    addBlock_cases h
  · exact ⟨hruns ▸ List.prefix_rfl, hdirectives ▸ List.prefix_rfl⟩
  · exact ⟨hruns ▸ List.prefix_append _ _, hdirectives ▸ List.prefix_rfl⟩
  · exact ⟨hruns ▸ List.prefix_rfl, hdirectives ▸ List.prefix_append _ _⟩

/-- Each run was built, and no two have the same label. -/
structure Sound (draft : Draft) : Prop where
  built : ∀ run ∈ draft.script.runs, ∃ script : Script, script.Builds run
  nodup : (draft.script.runs.map Run.label).Nodup

theorem sound_of_addBlock (hsound : draft.Sound) (h : draft.addBlock block = .ok later) :
    later.Sound := by
  obtain ⟨hruns, -⟩ | ⟨run, hbuilds, hfresh, hruns, -⟩ | ⟨directive, hruns, -⟩ := addBlock_cases h
  · exact ⟨hruns ▸ hsound.built, hruns ▸ hsound.nodup⟩
  · refine ⟨?_, ?_⟩
    · rw [hruns]
      intro run' hrun'
      rcases List.mem_append.1 hrun' with hold | hnew
      · exact hsound.built run' hold
      · rw [List.mem_singleton.1 hnew]
        exact ⟨draft.script, hbuilds⟩
    · rw [hruns, List.map_append, List.map_singleton]
      refine List.nodup_append.2 ⟨hsound.nodup, List.nodup_singleton _, ?_⟩
      intro label hlabel other hother heq
      exact hfresh (List.mem_singleton.1 hother ▸ heq ▸ hlabel)
  · exact ⟨hruns ▸ hsound.built, hruns ▸ hsound.nodup⟩

theorem sound_empty : Draft.empty.Sound :=
  ⟨fun _ hrun => absurd hrun List.not_mem_nil, List.nodup_nil⟩

theorem grows_of_foldlM {blocks : List Block} (h : blocks.foldlM addBlock draft = .ok later) :
    draft.Grows later :=
  foldlM_induction (P := draft.Grows) ⟨List.prefix_rfl, List.prefix_rfl⟩
    (fun _ _ _ hgrows hstep => hgrows.trans (grows_of_addBlock hstep)) h

theorem sound_of_foldlM {blocks : List Block}
    (h : blocks.foldlM addBlock Draft.empty = .ok later) : later.Sound :=
  foldlM_induction sound_empty (fun _ _ _ => sound_of_addBlock) h

end Draft

namespace Script

variable {text : String} {script : Script}

theorem parse_eq_ok (h : Script.parse text = .ok script) :
    ∃ blocks draft, blocksOf (cleanLines text.toList) = .ok blocks ∧
      blocks.foldlM Draft.addBlock Draft.empty = .ok draft ∧ draft.script = script := by
  unfold parse at h
  obtain ⟨blocks, hblocks, h⟩ := bind_eq_ok.1 h
  obtain ⟨draft, hdraft, rfl⟩ := map_eq_ok.1 h
  exact ⟨blocks, draft, hblocks, hdraft, rfl⟩

theorem nodup_labels_of_parse (h : Script.parse text = .ok script) :
    (script.runs.map Run.label).Nodup := by
  obtain ⟨blocks, draft, -, hdraft, rfl⟩ := parse_eq_ok h
  exact (Draft.sound_of_foldlM hdraft).nodup

theorem exists_builds_of_parse (h : Script.parse text = .ok script) {run : Run}
    (hrun : run ∈ script.runs) : ∃ script : Script, script.Builds run := by
  obtain ⟨blocks, draft, -, hdraft, rfl⟩ := parse_eq_ok h
  exact (Draft.sound_of_foldlM hdraft).built run hrun

end Script

/-! ## A script to try things on -/

/-- Conditioned and unconditioned stimulus in turn, whatever the responses. -/
def PhaseText.pairing : PhaseText where
  label := "pairing"
  ending := "us=2"
  rows := ["CS cs | US", "US us | CS"]

/-- The rows of `pairing` make a phase with any label and any number of unconditioned stimuli. -/
theorem PhaseText.compile_pairingRows {label ending : String} {n : Nat}
    (hending : endCondition trialVocabulary ["CS", "US"] label ending = .ok ⟨.element 1, n⟩) :
    PhaseText.compile ⟨label, ending, pairing.rows⟩ trialVocabulary =
      .ok ⟨label, trialVocabulary, [
        ⟨"CS", ⟨[0]⟩, [⟨⟨none, none⟩, [⟨1.0, 1⟩]⟩]⟩,
        ⟨"US", ⟨[1]⟩, [⟨⟨none, none⟩, [⟨1.0, 0⟩]⟩]⟩], ⟨.element 1, n⟩⟩ := by
  have hcut : Text.cut '|' "cs | US".toList = some ("cs ".toList, " US".toList) := rfl
  have hcs : line trialVocabulary ["CS", "US"] label "CS" "cs | US".toList =
      .ok ⟨"CS", ⟨[0]⟩, [⟨⟨none, none⟩, [⟨1.0, 1⟩]⟩]⟩ := by
    simp only [line, hcut, stimulusNames_cs]
    rfl
  have hrows : labelled trialVocabulary label [] pairing.rows =
      .ok [("CS", "cs | US".toList), ("US", "us | CS".toList)] := rfl
  have hlines : ([("CS", "cs | US".toList), ("US", "us | CS".toList)].mapM fun row =>
      line trialVocabulary ["CS", "US"] label row.1 row.2) =
        .ok [⟨"CS", ⟨[0]⟩, [⟨⟨none, none⟩, [⟨1.0, 1⟩]⟩]⟩,
          ⟨"US", ⟨[1]⟩, [⟨⟨none, none⟩, [⟨1.0, 0⟩]⟩]⟩] :=
    mapM_eq_ok.2 (.cons hcs (.cons (line_us _) .nil))
  exact compile_of_read rfl hrows hlines hending

theorem PhaseText.compile_pairing :
    ([pairing].mapM fun text => text.compile trialVocabulary) = .ok Run.pairings.world.phases :=
  mapM_eq_ok.2 (.cons (compile_pairingRows rfl) .nil)

namespace Script

/-- The lines of `pairings`. -/
def pairingLines : List String := [
  "@parameters \x7b'mechanism': 'ga'\x7d",
  "@parameters \x7b'behaviors': ['wait', 'press']\x7d",
  "@parameters \x7b'stimulus_elements': ['cs', 'us']\x7d",
  "@parameters \x7b'response_requirements': \x7b'press': 'cs'\x7d\x7d",
  "@phase \x7b'label': 'pairing', 'end': 'us=2'\x7d",
  "CS cs | US",
  "US us | CS",
  "@run \x7b'label': 'pairings'\x7d"]

/-- A script with a run of two pairings, in which a press is possible for the conditioned stimulus
only. -/
def pairings : String := String.intercalate "\n" pairingLines

/-- The blocks of `pairings`. -/
def pairingBlocks : List Block := [
  ⟨.parameters, some "\x7b'mechanism': 'ga'\x7d", []⟩,
  ⟨.parameters, some "\x7b'behaviors': ['wait', 'press']\x7d", []⟩,
  ⟨.parameters, some "\x7b'stimulus_elements': ['cs', 'us']\x7d", []⟩,
  ⟨.parameters, some "\x7b'response_requirements': \x7b'press': 'cs'\x7d\x7d", []⟩,
  ⟨.phase, some "\x7b'label': 'pairing', 'end': 'us=2'\x7d", PhaseText.pairing.rows⟩,
  ⟨.run, some "\x7b'label': 'pairings'\x7d", []⟩]

/-- The settings of `pairings`. -/
def pairingParameters : Parameters := ⟨⟨[
  (.str "mechanism", .str "ga"),
  (.str "behaviors", .list [.str "wait", .str "press"]),
  (.str "stimulus_elements", .list [.str "cs", .str "us"]),
  (.str "response_requirements", .dict [(.str "press", .str "cs")])]⟩⟩

/-- The run of `pairings`. -/
def pairingRun : Run where
  label := "pairings"
  world := Run.pairings.world
  mechanism := ⟨.enquist, { Configuration.default PhaseText.trialVocabulary with
    response := ⟨1.0, #[[0, 1], [0]]⟩ }⟩
  subjects := 1

theorem cleanLines_pairings : cleanLines pairings.toList = pairingLines.map String.toList := by
  rw [pairings, pairingLines, cleanLines_intercalate]
  decide +kernel

theorem blocksOf_pairings : blocksOf (cleanLines pairings.toList) = .ok pairingBlocks := by
  rw [cleanLines_pairings]
  exact blocksOf_cons rfl rfl <| blocksOf_cons rfl rfl <| blocksOf_cons rfl rfl <|
    blocksOf_cons rfl rfl <| blocksOf_cons rfl rfl <| blocksOf_cons rfl rfl blocksOf_nil

/-- A run is built from the settings and the phases that it names. -/
theorem buildRun_of_compile {script : Script} {label : String} {choice : Option Literal}
    {mechanism : Mechanism Float} {subjects : Nat} {labels : List String} {texts : List PhaseText}
    {phases : List Phase} (hmechanism : Mechanism.ofParameters script.parameters = .ok mechanism)
    (hsubjects : script.parameters.subjects = .ok subjects)
    (hlabels : phaseLabels choice = .ok labels) (htexts : script.selectPhases labels = .ok texts)
    (hphases : (texts.mapM fun text => text.compile mechanism.vocabulary) = .ok phases)
    (hne : phases.isEmpty = false) :
    script.buildRun label choice = .ok ⟨label, ⟨phases⟩, mechanism, subjects⟩ := by
  have hworld : World.ofPhases phases = .ok ⟨phases⟩ := by
    rw [World.ofPhases, hne]
    rfl
  refine bind_eq_ok.2 ⟨labels, hlabels, bind_eq_ok.2 ⟨texts, htexts, ?_⟩⟩
  refine bind_eq_ok.2 ⟨_, hmechanism, bind_eq_ok.2 ⟨_, hphases, bind_eq_ok.2 ⟨_, hworld, ?_⟩⟩⟩
  exact bind_eq_ok.2 ⟨_, hsubjects, rfl⟩

/-- A run with the settings of the pairings, whatever phases it names. -/
theorem buildRun_pairingParameters {script : Script} {label : String} {choice : Option Literal}
    {labels : List String} {texts : List PhaseText} {phases : List Phase}
    (hparameters : script.parameters = pairingParameters)
    (hlabels : phaseLabels choice = .ok labels)
    (htexts : script.selectPhases labels = .ok texts)
    (hphases : (texts.mapM fun text => text.compile PhaseText.trialVocabulary) = .ok phases)
    (hne : phases.isEmpty = false) :
    script.buildRun label choice =
      .ok { pairingRun with label, world := ⟨phases⟩ } := by
  have hmechanism : Mechanism.ofParameters script.parameters = .ok pairingRun.mechanism := by
    rw [hparameters]
    rfl
  have hsubjects : script.parameters.subjects = .ok 1 := by
    rw [hparameters]
    rfl
  exact buildRun_of_compile hmechanism hsubjects hlabels htexts hphases hne

end Script

theorem Block.properties_of_reads {keyword : Keyword} {header : String} {body : List String}
    {dict : Dict} (hread : Literal.Reads header.toList (.dict dict.entries) []) :
    (Block.mk keyword (some header) body).properties = .ok dict := by
  have hdict : Literal.parseDict header = .ok dict := Literal.parseDict_of_reads hread rfl
  show readDict header = _
  rw [readDict, hdict]
  rfl

namespace Draft

/-- A block of one dict of settings is merged into those in force. -/
theorem addBlock_parameters {draft : Draft} {header : String} {entries : List (Literal × Literal)}
    {parameters : Parameters} (hread : Literal.Reads header.toList (.dict entries) [])
    (hmerge : Script.mergeSettings draft.script.parameters (.dict entries) = .ok parameters) :
    draft.addBlock ⟨.parameters, some header, []⟩ =
      .ok { draft with script := { draft.script with parameters } } := by
  have harguments : Block.arguments ⟨.parameters, some header, []⟩ = header := rfl
  have hvalues : readLiterals header = .ok [.dict entries] := by
    rw [readLiterals, Literal.parseSequence_of_reads hread rfl]
    rfl
  simp only [addBlock, addParameters, harguments, hvalues]
  refine bind_eq_ok.2 ⟨_, rfl, bind_eq_ok.2 ⟨parameters, ?_, rfl⟩⟩
  rw [List.foldlM_cons]
  exact bind_eq_ok.2 ⟨parameters, hmerge, rfl⟩

/-- A block of a phase with a label is put under that label. -/
theorem addBlock_phase {draft : Draft} {header label ending : String} {rows : List String}
    (hread : Literal.Reads header.toList
      (.dict [(.str "label", .str label), (.str "end", .str ending)]) []) :
    draft.addBlock ⟨.phase, some header, rows⟩ =
      .ok { draft with script := { draft.script with
        phases := Script.putPhase label ending rows draft.script.phases } } := by
  have hproperties : (Block.mk .phase (some header) rows).properties =
      .ok ⟨[(.str "label", .str label), (.str "end", .str ending)]⟩ :=
    Block.properties_of_reads hread
  simp only [addBlock, addPhase, hproperties]
  rfl

/-- A block of a run with a label of its own adds what it builds. -/
theorem addBlock_run {draft : Draft} {header label : String} {entries : List (Literal × Literal)}
    {run : Run} (hread : Literal.Reads header.toList (.dict entries) [])
    (hknown : Script.checkProperties ⟨entries⟩ ["label", "phases"] .run = .ok ())
    (hlabel : Script.textProperty ⟨entries⟩ "label" .run = .ok (some label))
    (hfresh : (draft.script.runs.any fun run => run.label == label) = false)
    (hrun : draft.script.buildRun label (Dict.get? ⟨entries⟩ "phases") = .ok run) :
    draft.addBlock ⟨.run, some header, []⟩ =
      .ok { draft with script := { draft.script with runs := draft.script.runs ++ [run] } } := by
  have hproperties : (Block.mk .run (some header) []).properties = .ok ⟨entries⟩ :=
    Block.properties_of_reads hread
  simp only [addBlock, addRun, hproperties]
  refine bind_eq_ok.2 ⟨_, rfl, bind_eq_ok.2 ⟨(), hknown, bind_eq_ok.2 ⟨some label, hlabel, ?_⟩⟩⟩
  simp only [Option.getD_some, hfresh]
  exact bind_eq_ok.2 ⟨_, hrun, rfl⟩

/-- A run of all phases takes the settings and phases of the script. -/
theorem addBlock_pairingRun {draft : Draft} {header label : String} {phases : List Phase}
    (hread : Literal.Reads header.toList (.dict [(.str "label", .str label)]) [])
    (hparameters : draft.script.parameters = Script.pairingParameters)
    (hphases : (draft.script.phases.mapM fun text => text.compile PhaseText.trialVocabulary) =
      .ok phases)
    (hne : phases.isEmpty = false)
    (hfresh : (draft.script.runs.any fun run => run.label == label) = false) :
    draft.addBlock ⟨.run, some header, []⟩ =
      .ok { draft with script := { draft.script with
        runs := draft.script.runs ++ [{ Script.pairingRun with label, world := ⟨phases⟩ }] } } :=
  addBlock_run hread rfl rfl hfresh <|
    Script.buildRun_pairingParameters hparameters rfl rfl hphases hne

end Draft

namespace Script

/-- The draft that the blocks of `pairings` lead to. -/
def pairingDraft : Draft where
  script := { Script.empty with
    parameters := pairingParameters, phases := [PhaseText.pairing], runs := [pairingRun] }
  unnamedPhases := 0
  unnamedRuns := 0

open Literal in
theorem foldlM_pairingBlocks :
    pairingBlocks.foldlM Draft.addBlock Draft.empty = .ok pairingDraft := by
  have hmechanism : Reads "\x7b'mechanism': 'ga'\x7d".toList
      (.dict [(.str "mechanism", .str "ga")]) [] :=
    .dict rfl (.last rfl (.quoted "mechanism" ": 'ga'\x7d".toList rfl (.inl rfl) rfl) rfl rfl
      (.quoted "ga" "\x7d".toList rfl (.inl rfl) rfl) rfl rfl)
  have hbehaviors : Reads "\x7b'behaviors': ['wait', 'press']\x7d".toList
      (.dict [(.str "behaviors", .list [.str "wait", .str "press"])]) [] :=
    .dict rfl (.last rfl (.quoted "behaviors" ": ['wait', 'press']\x7d".toList rfl (.inl rfl) rfl)
      rfl rfl (.list rfl (.more rfl (.quoted "wait" ", 'press']\x7d".toList rfl (.inl rfl) rfl) rfl
        (.last rfl (.quoted "press" "]\x7d".toList rfl (.inl rfl) rfl) rfl rfl))) rfl rfl)
  have helements : Reads "\x7b'stimulus_elements': ['cs', 'us']\x7d".toList
      (.dict [(.str "stimulus_elements", .list [.str "cs", .str "us"])]) [] :=
    .dict rfl (.last rfl
      (.quoted "stimulus_elements" ": ['cs', 'us']\x7d".toList rfl (.inl rfl) rfl) rfl rfl
      (.list rfl (.more rfl (.quoted "cs" ", 'us']\x7d".toList rfl (.inl rfl) rfl) rfl
        (.last rfl (.quoted "us" "]\x7d".toList rfl (.inl rfl) rfl) rfl rfl))) rfl rfl)
  have hrequirements : Reads "\x7b'response_requirements': \x7b'press': 'cs'\x7d\x7d".toList
      (.dict [(.str "response_requirements", .dict [(.str "press", .str "cs")])]) [] :=
    .dict rfl (.last rfl
      (.quoted "response_requirements" ": \x7b'press': 'cs'\x7d\x7d".toList rfl (.inl rfl) rfl)
      rfl rfl (.dict rfl (.last rfl (.quoted "press" ": 'cs'\x7d\x7d".toList rfl (.inl rfl) rfl)
        rfl rfl (.quoted "cs" "\x7d\x7d".toList rfl (.inl rfl) rfl) rfl rfl)) rfl rfl)
  have hlabel : Reads "\x7b'label': 'pairings'\x7d".toList
      (.dict [(.str "label", .str "pairings")]) [] :=
    .dict rfl (.last rfl (.quoted "label" ": 'pairings'\x7d".toList rfl (.inl rfl) rfl) rfl rfl
      (.quoted "pairings" "\x7d".toList rfl (.inl rfl) rfl) rfl rfl)
  have hphase : Reads "\x7b'label': 'pairing', 'end': 'us=2'\x7d".toList
      (.dict [(.str "label", .str "pairing"), (.str "end", .str "us=2")]) [] :=
    .dict rfl
      (.more rfl (.quoted "label" ": 'pairing', 'end': 'us=2'\x7d".toList rfl (.inl rfl) rfl) rfl rfl
        (.quoted "pairing" ", 'end': 'us=2'\x7d".toList rfl (.inl rfl) rfl) rfl
        (.last rfl (.quoted "end" ": 'us=2'\x7d".toList rfl (.inl rfl) rfl) rfl rfl
          (.quoted "us=2" "\x7d".toList rfl (.inl rfl) rfl) rfl rfl))
  simp only [pairingBlocks, List.foldlM_cons, List.foldlM_nil]
  refine bind_eq_ok.2 ⟨_, Draft.addBlock_parameters hmechanism rfl, ?_⟩
  refine bind_eq_ok.2 ⟨_, Draft.addBlock_parameters hbehaviors rfl, ?_⟩
  refine bind_eq_ok.2 ⟨_, Draft.addBlock_parameters helements rfl, ?_⟩
  refine bind_eq_ok.2 ⟨_, Draft.addBlock_parameters hrequirements rfl, ?_⟩
  refine bind_eq_ok.2 ⟨_, Draft.addBlock_phase hphase, ?_⟩
  exact bind_eq_ok.2 ⟨_, Draft.addBlock_pairingRun hlabel rfl PhaseText.compile_pairing rfl rfl, rfl⟩

theorem parse_pairings : Script.parse pairings = .ok pairingDraft.script :=
  bind_eq_ok.2 ⟨_, blocksOf_pairings, map_eq_ok.2 ⟨_, foldlM_pairingBlocks, rfl⟩⟩

theorem blocksOf_pairings_newline {more : String} {blocks : List Block}
    (hleads : LeadsBlock (cleanLines more.toList))
    (hblocks : blocksOf (cleanLines more.toList) = .ok blocks) :
    blocksOf (cleanLines (pairings ++ "\n" ++ more).toList) = .ok (pairingBlocks ++ blocks) := by
  rw [cleanLines_newline, blocksOf_append hleads, blocksOf_pairings, hblocks]
  rfl

/-- The blocks of a text that follows the pairings are added to them. -/
theorem parse_pairings_newline {more : String} {blocks : List Block} {draft : Draft}
    (hleads : LeadsBlock (cleanLines more.toList))
    (hblocks : blocksOf (cleanLines more.toList) = .ok blocks)
    (hdraft : blocks.foldlM Draft.addBlock pairingDraft = .ok draft) :
    Script.parse (pairings ++ "\n" ++ more) = .ok draft.script := by
  have hall := blocksOf_pairings_newline hleads hblocks
  refine bind_eq_ok.2 ⟨_, hall, map_eq_ok.2 ⟨draft, ?_, rfl⟩⟩
  rw [List.foldlM_append]
  exact bind_eq_ok.2 ⟨_, foldlM_pairingBlocks, hdraft⟩

end Script

end Conditioning
