import Conditioning.Proofs.Run.Replay
import Conditioning.Proofs.Script.Blocks
import Conditioning.Proofs.Stages.Query
import Conditioning.Proofs.World.Reachable
import Conditioning.Script.Assembly

/-!
# Stages of failure of scripts

A text fails to become a script because of its form or because of what it says,
so at parsing or validation.  A script that was read can fail in one way only: a
response for which no condition of a line leads on.  A record fails to answer a
query at evaluation, and nowhere else.  `stages_of_failure` says so of the whole
way from a text to an answer.
-/

namespace Conditioning

/-! ## Phases -/

/-- The errors of the text of a phase: it has the wrong form, or what it says is not valid. -/
def Error.IsOfText (error : Error) : Prop :=
  (∃ cause, error = .malformed cause) ∨ error.stage = .validation

theorem FailsAt.ofText {α : Type} {x : Except Error α} (h : FailsAt [.validation] x) :
    FailsWith Error.IsOfText x :=
  h.mono fun _ he => .inr (List.mem_singleton.1 he)

theorem FailsWith.ofReading {α : Type} {x : Except Error α} (h : FailsWith Error.IsOfText x) :
    FailsAt Stage.ofReading x := by
  refine h.mono ?_
  rintro error (⟨cause, rfl⟩ | hstage)
  · exact .head _
  · exact hstage ▸ .tail _ (.head _)

namespace PhaseText

variable (vocabulary : Vocabulary) (labels : List String) (phase : String)

theorem failsWith_guard (cs : List Char) :
    FailsWith Error.IsOfText (PhaseText.guard vocabulary phase cs) := by
  have hbehavior (text : List Char) :
      FailsWith Error.IsOfText (guardBehavior vocabulary phase text) :=
    (vocabulary.failsAt_behavior _ _).ofText
  unfold PhaseText.guard
  split
  next =>
    split
    · exact .error (.inl ⟨_, rfl⟩)
    · exact (hbehavior _).bind fun _ => .ok _
  next =>
    split
    · exact .ok _
    · exact (hbehavior _).bind fun _ => .ok _

theorem failsWith_weightedEdge (condition edgesText : String) (before : List Edge)
    (item : List Char) :
    FailsWith Error.IsOfText (weightedEdge labels phase condition edgesText before item) := by
  unfold weightedEdge
  split
  next => exact .error (.inl ⟨_, rfl⟩)
  next =>
    split
    next => exact .error (.inl ⟨_, rfl⟩)
    next =>
      simp only
      split
      next => exact .error (.inr rfl)
      next =>
        split
        next => exact .error (.inr rfl)
        next =>
          split
          · exact .error (.inr rfl)
          · exact .ok _

theorem failsWith_edges (condition edgesText : String) (alone : Bool) (before : List Edge)
    (items : List (List Char)) :
    FailsWith Error.IsOfText (edges labels phase condition edgesText alone before items) := by
  have hedge (before : List Edge) (item : List Char) :
      FailsWith Error.IsOfText
        (PhaseText.edge labels phase condition edgesText alone before item) := by
    unfold PhaseText.edge
    split
    next =>
      split
      · exact .ok _
      · exact .error (.inl ⟨_, rfl⟩)
    next => exact failsWith_weightedEdge labels phase _ _ _ _
  induction items generalizing before with
  | nil => exact .ok _
  | cons item items ih => exact (hedge _ _).bind fun _ => ih _

theorem failsWith_condition (cs : List Char) :
    FailsWith Error.IsOfText (PhaseText.condition vocabulary labels phase cs) := by
  have hbounded (edgesText : String) (guard : Guard) (edges : List Edge) :
      FailsWith Error.IsOfText (bounded edgesText guard edges) := by
    unfold bounded
    simp only
    split
    · exact .error (.inr rfl)
    · exact .ok _
  unfold PhaseText.condition
  split
  next => exact .error (.inl ⟨_, rfl⟩)
  next =>
    simp only
    split
    next =>
      exact (failsWith_guard vocabulary phase _).bind fun _ =>
        (failsWith_edges labels phase _ _ _ _ _).bind fun _ => hbounded _ _ _
    next => exact (failsWith_edges labels phase _ _ _ _ _).bind fun _ => hbounded _ _ _

theorem failsWith_line (label : String) (cs : List Char) :
    FailsWith Error.IsOfText (PhaseText.line vocabulary labels phase label cs) := by
  unfold PhaseText.line
  split
  next => exact .error (.inl ⟨_, rfl⟩)
  next =>
    split
    next => exact .error (.inl ⟨_, rfl⟩)
    next =>
      have helement (name place : String) := (vocabulary.failsAt_element name place).ofText
      refine (FailsWith.mapM (fun _ => helement _ _) _).bind fun _ => ?_
      refine (FailsWith.mapM (fun _ => failsWith_condition vocabulary labels phase _) _).bind
        fun _ => ?_
      split
      next =>
        split
        · exact .ok _
        · exact .error (.inr rfl)
      next => exact .ok _

theorem failsWith_labelled (before rows : List String) :
    FailsWith Error.IsOfText (labelled vocabulary phase before rows) := by
  induction rows generalizing before with
  | nil => exact .ok _
  | cons row rows ih =>
    unfold labelled
    simp only
    split
    next => exact .error (.inl ⟨_, rfl⟩)
    next =>
      split
      next => exact .error (.inr rfl)
      next =>
        split
        next => exact .error (.inr rfl)
        next =>
          split
          · exact .error (.inr rfl)
          · exact (ih _).bind fun _ => .ok _

theorem failsWith_endCondition (text : String) :
    FailsWith Error.IsOfText (endCondition vocabulary labels phase text) := by
  unfold endCondition
  split
  next => exact .error (.inl ⟨_, rfl⟩)
  next =>
    simp only
    split
    next => exact .error (.inl ⟨_, rfl⟩)
    next =>
      split
      · exact .ok _
      · exact .error (.inr rfl)

theorem failsWith_compile (text : PhaseText) : FailsWith Error.IsOfText (text.compile vocabulary) := by
  unfold compile
  split
  next => exact .error (.inr rfl)
  next =>
    refine (failsWith_labelled vocabulary _ _ _).bind fun rows => ?_
    refine (FailsWith.mapM (fun _ => failsWith_line vocabulary _ _ _ _) _).bind fun _ => ?_
    exact (failsWith_endCondition vocabulary _ _ _).bind fun _ => .ok _

end PhaseText

/-! ## Blocks -/

theorem failsAt_readLiterals (text : String) : FailsAt [.parse] (readLiterals text) :=
  .mapError Error.literal (fun _ => .head _) _

theorem Block.failsWith_properties {P : Error → Prop} (hliteral : ∀ misread, P (.literal misread))
    (block : Block) : FailsWith P block.properties := by
  unfold Block.properties
  split
  · exact .ok _
  · exact .mapError Error.literal hliteral _

theorem failsWith_blocksOf {P : Error → Prop} (hkeyword : ∀ word, P (.unknownKeyword word))
    (hmalformed : ∀ cause, P (.malformed cause)) (lines : List (List Char)) :
    FailsWith P (blocksOf lines) := by
  have hmake (first : List Char) (below : List (List Char)) :
      FailsWith P (makeBlock first below) := by
    unfold makeBlock
    simp only
    split
    · exact .error (hkeyword _)
    · exact .ok _
  fun_induction blocksOf lines with
  | case1 => exact .ok _
  | case2 first rest _ error herror => exact fun e he => by cases he; exact hmake _ _ _ herror
  | case3 first rest _ block _ error herror ih =>
    exact fun e he => by cases he; exact ih _ herror
  | case4 => exact .ok _
  | case5 => exact .error (hmalformed _)

/-! ## Scripts in the making -/

namespace Script

theorem failsWith_textProperty {P : Error → Prop} (hmalformed : ∀ cause, P (.malformed cause))
    (properties : Dict) (property : String) (keyword : Keyword) :
    FailsWith P (textProperty properties property keyword) := by
  unfold textProperty
  split
  next => exact .ok _
  next =>
    split
    · exact .ok _
    · exact .error (hmalformed _)

theorem failsWith_checkProperties {P : Error → Prop} (hmalformed : ∀ cause, P (.malformed cause))
    (properties : Dict) (known : List String) (keyword : Keyword) :
    FailsWith P (checkProperties properties known keyword) := by
  unfold checkProperties
  split
  · exact .error (hmalformed _)
  · exact .ok _

theorem failsAt_mergeSettings (parameters : Parameters) (value : Literal) :
    FailsAt [.parse] (mergeSettings parameters value) := by
  unfold mergeSettings
  split
  next block =>
    unfold Parameters.merge?
    split
    next error herror =>
      obtain ⟨entry, -, rfl⟩ := Option.map_eq_some_iff.1 herror
      exact .error (.head _)
    next => exact .ok _
  next => exact .error (.head _)

theorem failsAt_selectPhases (script : Script) (labels : List String) :
    FailsAt [.validation] (script.selectPhases labels) := by
  unfold selectPhases
  split
  next => exact .ok _
  next =>
    refine .mapM (fun label => ?_) _
    split
    · exact .ok _
    · exact .error (.head _)

theorem failsWith_buildRun (script : Script) (label : String) (choice : Option Literal) :
    FailsWith Error.IsOfText (script.buildRun label choice) := by
  have hlabels : FailsWith Error.IsOfText (phaseLabels choice) := by
    unfold phaseLabels
    split
    next => exact .ok _
    next =>
      split
      · exact .ok _
      · exact .error (.inl ⟨_, rfl⟩)
  have hworld (phases : List Phase) : FailsAt [.validation] (World.ofPhases phases) := by
    unfold World.ofPhases
    split
    · exact .error (.head _)
    · exact .ok _
  refine hlabels.bind fun _ => (failsAt_selectPhases _ _).ofText.bind fun _ => ?_
  refine (Mechanism.failsAt_ofParameters _).ofText.bind fun mechanism => ?_
  refine (FailsWith.mapM (PhaseText.failsWith_compile mechanism.vocabulary) _).bind fun _ => ?_
  refine (hworld _).ofText.bind fun _ => ?_
  exact (Parameters.failsAt_subjects _).ofText.bind fun _ => .ok _

end Script

namespace Draft

variable (draft : Draft) (block : Block)

theorem failsAt_addPhase : FailsAt [.parse] (draft.addPhase block) := by
  refine (block.failsWith_properties fun _ => .head _).bind fun _ => ?_
  refine (Script.failsWith_textProperty (fun _ => .head _) _ _ _).bind fun _ => ?_
  refine (Script.failsWith_textProperty (fun _ => .head _) _ _ _).bind fun _ => ?_
  split
  · exact .error (.head _)
  · exact (Script.failsWith_checkProperties (fun _ => .head _) _ _ _).bind fun _ => .ok _

theorem failsAt_addRun : FailsAt Stage.ofReading (draft.addRun block) := by
  have hrun (label : String) (choice : Option Literal) (unnamedRuns : Nat) :
      FailsAt Stage.ofReading (do
        if draft.script.runs.any fun run => run.label == label then throw (.duplicateRunLabel label)
        let run ← draft.script.buildRun label choice
        return ({ draft with
          script := { draft.script with runs := draft.script.runs ++ [run] }, unnamedRuns } :
            Draft)) := by
    simp only
    split
    · exact .error (.head _)
    · exact (Script.failsWith_buildRun _ _ _).ofReading.bind fun _ => .ok _
  refine (block.failsWith_properties fun _ => .head _).bind fun _ => ?_
  refine (Script.failsWith_checkProperties (fun _ => .head _) _ _ _).bind fun _ => ?_
  exact (Script.failsWith_textProperty (fun _ => .head _) _ _ _).bind fun _ => hrun _ _ _

theorem failsAt_addBlock : FailsAt Stage.ofReading (draft.addBlock block) := by
  have hparameters : FailsAt [.parse] (draft.addParameters block) :=
    (failsAt_readLiterals _).bind fun _ =>
      (FailsWith.foldlM Script.failsAt_mergeSettings _ _).bind fun _ => .ok _
  have hdirective : FailsAt [.parse] (draft.addDirective block) :=
    (Directive.failsAt_parse _ _).bind fun _ => .ok _
  unfold addBlock
  split
  · exact .ok _
  · exact hparameters.parse
  · exact (draft.failsAt_addPhase block).parse
  · exact draft.failsAt_addRun block
  · exact hdirective.parse

end Draft

theorem Script.failsAt_parse (text : String) : FailsAt Stage.ofReading (Script.parse text) :=
  (failsWith_blocksOf (fun _ => .head _) (fun _ => .head _) _).bind fun _ =>
    (FailsWith.foldlM Draft.failsAt_addBlock _ _).map _

/-! ## Simulations -/

/-- The one thing that can go wrong at run time. -/
theorem Error.stage_eq_runtime_iff (error : Error) :
    error.stage = .runtime ↔
      ∃ phase line response, error = .noConditionMet phase line response := by
  constructor
  · intro h
    cases error with
    | noConditionMet phase line response => exact ⟨phase, line, response, rfl⟩
    | _ => cases h
  · rintro ⟨phase, line, response, rfl⟩
    rfl

theorem Phase.failsAt_next (phase : Phase) (state : PhaseState) (response : Option BehaviorId)
    (g : Generator) : FailsAt [.runtime] (phase.next state response g).outcome := by
  have hpresent (state : PhaseState) (g : Generator) :
      FailsAt [.runtime] (phase.present state response g).outcome := by
    obtain ⟨-, e⟩ | ⟨-, e⟩ := phase.present_cases state response g
    · rw [e]
      exact .ok _
    · rw [e]
      exact .ok _
  obtain ⟨-, e⟩ | ⟨-, g', -, e⟩ | ⟨-, target, g', -, e⟩ := phase.next_cases state response g
  · rw [e]
    exact hpresent _ _
  · rw [e]
    exact .error (.head _)
  · rw [e]
    exact hpresent _ _

theorem World.failsAt_next (world : World) (state : WorldState) (response : Option BehaviorId)
    (g : Generator) : FailsAt [.runtime] (world.next state response g).outcome := by
  fun_induction World.next world state response g with
  | case1 state g phase phaseState _ _ move _ error hmove =>
    exact .error (phase.failsAt_next phaseState response g error hmove)
  | case2 => exact .ok _
  | case3 _ _ _ _ _ _ _ _ _ _ ih => exact ih
  | case4 => exact .ok _
  | case5 => exact .ok _

namespace Run

variable {run : Run} {budget : Nat} {error : Error}

theorem failsAt_step (run : Run) (session : Session) : FailsAt [.runtime] (run.step session) := by
  unfold step
  simp only
  split
  next error hmove => exact .error (run.world.failsAt_next _ _ _ error hmove)
  next => exact .ok _
  next => exact .ok _

theorem stage_of_proceed {session : Session}
    (h : run.proceed session budget = .error (.error error)) : error.stage = .runtime := by
  induction budget generalizing session with
  | zero => cases h
  | succ budget ih =>
    rw [proceed] at h
    split at h
    next e hstep =>
      cases h
      exact List.mem_singleton.1 (run.failsAt_step session error hstep)
    next => cases h
    next => exact ih h

theorem stage_of_subjectsFrom {apparatus : Apparatus} {seeds : List UInt64}
    (h : run.subjectsFrom budget apparatus seeds = .error (.error error)) :
    error.stage = .runtime := by
  induction seeds generalizing apparatus with
  | nil => cases h
  | cons seed seeds ih =>
    rw [subjectsFrom] at h
    split at h
    next halt hsubject =>
      cases h
      unfold subject at hsubject
      split at hsubject
      next halt hproceed =>
        cases hsubject
        exact stage_of_proceed hproceed
      next => cases hsubject
    next =>
      split at h
      next halt hlater =>
        cases h
        exact ih hlater
      next => cases h

end Run

theorem stage_of_simulateAll {budget : Nat} {error : Error} {experiment : Experiment}
    {g : Generator} {runs : List Run}
    (h : simulateAll budget experiment g runs = .error (.error error)) :
    error.stage = .runtime := by
  induction runs generalizing experiment g with
  | nil => cases h
  | cons run runs ih =>
    rw [simulateAll] at h
    split at h
    next halt hrun =>
      cases h
      unfold Run.simulate at hrun
      simp only at hrun
      split at hrun
      next halt hsubjects =>
        cases hrun
        exact Run.stage_of_subjectsFrom hsubjects
      next => cases hrun
    next => exact ih h

/-! ## From a text to an answer -/

/-- A text is refused at parsing or validation, a simulation fails for a response that leads
nowhere, a query fails at evaluation, and a directive is refused at parsing. -/
theorem stages_of_failure :
    (∀ text error, Script.parse text = .error error →
      error.stage = .parse ∨ error.stage = .validation) ∧
    (∀ (script : Script) (budget : Nat) (seed : UInt64) (error : Error),
      script.simulate budget seed = .error (.error error) →
        error.stage = .runtime ∧
          ∃ phase line response, error = .noConditionMet phase line response) ∧
    (∀ (experiment : Experiment) (expression : Expression) (options : Options) (error : Error),
      experiment.evaluate expression options = .error error → error.stage = .evaluation) ∧
    ∀ (keyword : Keyword) (arguments : String) (error : Error),
      Directive.parse keyword arguments = .error error → error.stage = .parse := by
  refine ⟨fun text error h => ?_, fun script budget seed error h => ?_,
    fun experiment expression options error h => ?_, fun keyword arguments error h => ?_⟩
  · simpa [Stage.ofReading] using Script.failsAt_parse text error h
  · have hstage := stage_of_simulateAll h
    exact ⟨hstage, error.stage_eq_runtime_iff.1 hstage⟩
  · exact List.mem_singleton.1 (experiment.failsAt_evaluate expression options error h)
  · exact List.mem_singleton.1 (Directive.failsAt_parse keyword arguments error h)

/-- A script whose only line leads on from its second visit, which therefore never comes. -/
def stuck : Script := { Script.empty with
  runs := [{ Run.pairings with
    world := ⟨[⟨"stuck", PhaseText.trialVocabulary,
      [⟨"CS", ⟨[0]⟩, [⟨⟨none, some 2⟩, [⟨1.0, 0⟩]⟩]⟩], ⟨.element 0, 2⟩⟩]⟩ }] }

/-- Each of the four can fail. -/
theorem stages_of_failure_stuck :
    (∃ error, Script.parse "@run" = .error error ∧
      (error.stage = .parse ∨ error.stage = .validation)) ∧
    (∃ phase line response,
      stuck.simulate 2 1 = .error (.error (.noConditionMet phase line response))) ∧
    (∃ error, Experiment.empty.evaluate (.w "cs") Options.default = .error error ∧
      error.stage = .evaluation) ∧
    ∃ error, Directive.parse .subplot "" = .error error ∧ error.stage = .parse := by
  obtain ⟨hparse, hsimulate, hevaluate, hdirective⟩ := stages_of_failure
  have hfails : ∃ error, stuck.simulate 2 1 = .error (.error error) := by
    have hnot : (match stuck.simulate 2 1 with
        | .error (.error _) => true
        | _ => false) = true := by decide +kernel
    split at hnot
    next error herror => exact ⟨error, herror⟩
    next => cases hnot
  obtain ⟨error, herror⟩ := hfails
  obtain ⟨-, phase, line, response, rfl⟩ := hsimulate stuck 2 1 error herror
  have hrun : Script.parse "@run" = .error (.missingParameter Parameter.behaviors) := by
    have hblocks : blocksOf (cleanLines "@run".toList) = .ok [⟨.run, none, []⟩] := by
      have hnil : blocksOf [] = .ok [] := by rw [blocksOf]
      have hlines : cleanLines "@run".toList = ["@run".toList] := by decide +kernel
      rw [hlines]
      exact blocksOf_cons rfl rfl hnil
    rw [Script.parse, hblocks]
    rfl
  have hsubplot : Directive.parse .subplot "" =
      .error (.malformed (.argumentCount .subplot (.either 1 2))) := by
    rw [Directive.parse, Literal.parseSequence, Literal.readSequence]
    rfl
  have hempty : Experiment.empty.evaluate (.w "cs") Options.default =
      .error (.unanswerable .noOutput) := rfl
  exact ⟨⟨_, hrun, hparse _ _ hrun⟩, ⟨phase, line, response, herror⟩,
    ⟨_, hempty, hevaluate _ _ _ _ hempty⟩, ⟨_, hsubplot, hdirective _ _ _ hsubplot⟩⟩

end Conditioning
