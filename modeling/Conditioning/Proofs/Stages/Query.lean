import Conditioning.Proofs.Stages.Settings
import Conditioning.Query.Evaluation
import Conditioning.Script.Directive

/-!
# Stages of failure of queries

A query is read from the arguments of a directive, and later asked of the record
of a run.  Reading it finds fault with its form only, so it fails at parsing.
Whether a record has what is asked for shows when it is asked, so all names that
the record does not know are found at evaluation.
-/

namespace Conditioning

/-! ## Reading patterns and expressions -/

namespace Pattern

theorem failsAt_namesOf (value : Literal) : FailsAt [.parse] (namesOf value) := by
  unfold namesOf
  split
  · exact .ok _
  · exact .error (.head _)

theorem failsAt_ofSimple (value : Literal) : FailsAt [.parse] (ofSimple value) := by
  unfold ofSimple
  split
  · exact .ok _
  · exact (failsAt_namesOf _).map _
  · exact .error (.head _)

theorem failsAt_ofItem (whole item : Literal) : FailsAt [.parse] (ofItem whole item) := by
  unfold ofItem
  split
  · exact .error (.head _)
  · exact failsAt_ofSimple _

theorem failsAt_ofLiteral (value : Literal) : FailsAt [.parse] (ofLiteral value) := by
  unfold ofLiteral
  split
  next =>
    refine (FailsWith.mapM (fun item => failsAt_ofItem _ item) _).bind fun _ => ?_
    simp only
    split
    · exact .error (.head _)
    · exact .ok _
  next => exact failsAt_ofSimple _

end Pattern

namespace Expression

theorem failsAt_probabilityOf (value : Literal) : FailsAt [.parse] (probabilityOf value) := by
  have hshown (part : Literal) : FailsAt [.parse] (shownElements value part) := by
    unfold shownElements
    split
    · exact .ok _
    · exact Pattern.failsAt_namesOf _
    · exact .error (.head _)
  unfold probabilityOf
  split
  next =>
    refine (hshown _).bind fun _ => ?_
    split
    · exact .ok _
    · exact .error (.head _)
  next => exact .error (.head _)

theorem failsAt_countOf (pattern : Literal) (reference : Option Literal) :
    FailsAt [.parse] (countOf pattern reference) := by
  refine (Pattern.failsAt_ofLiteral _).bind fun _ => ?_
  split
  · exact .ok _
  · exact (Pattern.failsAt_ofLiteral _).bind fun _ => .ok _

theorem failsAt_ofLiteral (quantity : Quantity) (value : Literal) :
    FailsAt [.parse] (ofLiteral quantity value) := by
  unfold ofLiteral
  split
  next =>
    unfold weightOf
    split
    · exact .ok _
    · exact .error (.head _)
  next =>
    unfold salienceOf
    split
    · exact .ok _
    · exact .error (.head _)
  next => exact failsAt_probabilityOf _
  next => exact failsAt_countOf _ _

end Expression

/-! ## Reading options -/

namespace Options

theorem failsAt_textOf (property : String) (value : Literal) :
    FailsAt [.parse] (textOf property value) := by
  unfold textOf
  split
  · exact .ok _
  · exact .error (.head _)

theorem failsAt_switchOf (property : String) (value : Literal) :
    FailsAt [.parse] (switchOf property value) := by
  unfold switchOf
  split
  next =>
    split
    next => exact .ok _
    next =>
      split
      · exact .ok _
      · exact .error (.head _)
  next => exact .error (.head _)

theorem failsAt_selectionOf (value : Literal) : FailsAt [.parse] (selectionOf value) := by
  unfold selectionOf
  split
  next =>
    split
    next => exact .ok _
    next =>
      split
      · exact .ok _
      · exact .error (.head _)
  next =>
    split
    · exact .ok _
    · exact .error (.head _)
  next => exact .error (.head _)

theorem failsAt_phasesOf (value : Literal) : FailsAt [.parse] (phasesOf value) := by
  unfold phasesOf
  split
  · exact .ok _
  · exact .error (.head _)

theorem failsAt_set (options : Options) (property : String) (value : Literal) :
    FailsAt [.parse] (options.set property value) := by
  unfold set
  split
  · exact (failsAt_textOf _ _).bind fun _ => .ok _
  · exact (failsAt_selectionOf _).bind fun _ => .ok _
  · exact (failsAt_phasesOf _).bind fun _ => .ok _
  · exact (Pattern.failsAt_ofLiteral _).bind fun _ => .ok _
  · exact (failsAt_switchOf _ _).bind fun _ => .ok _
  · exact (failsAt_switchOf _ _).bind fun _ => .ok _
  · exact (failsAt_switchOf _ _).bind fun _ => .ok _
  · exact (failsAt_textOf _ _).bind fun _ => .ok _
  · exact .ok _
  · exact .error (.head _)

theorem failsAt_ofDict (dict : Dict) : FailsAt [.parse] (ofDict dict) := by
  refine .foldlM (fun options entry => ?_) _ _
  unfold setEntry
  split
  · exact failsAt_set _ _ _
  · exact .error (.head _)

end Options

/-! ## Reading directives -/

namespace Directive

theorem failsAt_dictArgument (role : Role) (keyword : Keyword) (value : Literal) :
    FailsAt [.parse] (dictArgument role keyword value) := by
  unfold dictArgument
  split
  · exact .ok _
  · exact .error (.head _)

theorem failsAt_dictOrEmpty (role : Role) (keyword : Keyword) (value : Option Literal) :
    FailsAt [.parse] (dictOrEmpty role keyword value) := by
  unfold dictOrEmpty
  split
  · exact failsAt_dictArgument _ _ _
  · exact .ok _

theorem failsAt_figureOf (keyword : Keyword) (arguments : List Literal) :
    FailsAt [.parse] (figureOf keyword arguments) := by
  unfold figureOf
  split
  · exact .ok _
  · exact .ok _
  · exact .ok _
  · exact (failsAt_dictArgument _ _ _).bind fun _ => .ok _
  · exact .error (.head _)
  · exact .error (.head _)
  · exact .error (.head _)

theorem failsAt_subplotOf (keyword : Keyword) (arguments : List Literal) :
    FailsAt [.parse] (subplotOf keyword arguments) := by
  have hplace (place : Literal) (properties : Dict) :
      FailsAt [.parse] (subplotAt keyword place properties) := by
    unfold subplotAt
    split
    · exact .ok _
    · exact .error (.head _)
  unfold subplotOf
  split
  · exact hplace _ _
  · exact (failsAt_dictArgument _ _ _).bind fun _ => hplace _ _
  · exact .error (.head _)

theorem failsAt_legendLabels (keyword : Keyword) (value : Literal) :
    FailsAt [.parse] (legendLabels keyword value) := by
  unfold legendLabels
  split
  next => exact .ok _
  next =>
    split
    · exact .ok _
    · exact .error (.head _)
  next => exact .error (.head _)

theorem failsAt_legendOf (keyword : Keyword) (arguments : List Literal) :
    FailsAt [.parse] (legendOf keyword arguments) := by
  unfold legendOf
  split
  · exact .ok _
  · exact .ok _
  · exact (failsAt_legendLabels _ _).bind fun _ => .ok _
  · exact (failsAt_legendLabels _ _).bind fun _ =>
      (failsAt_dictArgument _ _ _).bind fun _ => .ok _
  · exact .error (.head _)

theorem failsAt_simplePlot (quantity : Quantity) (keyword : Keyword) (first : Literal)
    (rest : List Literal) : FailsAt [.parse] (simplePlot quantity keyword first rest) :=
  (Expression.failsAt_ofLiteral _ _).bind fun _ => (failsAt_dictOrEmpty _ _ _).bind fun _ =>
    (failsAt_dictOrEmpty _ _ _).bind fun _ => .ok _

theorem failsAt_countDicts (isExport : Bool) (keyword : Keyword) (rest : List Literal) :
    FailsAt [.parse] (countDicts isExport keyword rest) := by
  unfold countDicts
  split
  · exact .ok _
  · exact (failsAt_dictArgument _ _ _).bind fun _ => .ok _
  · exact (failsAt_dictArgument _ _ _).bind fun _ =>
      (failsAt_dictArgument _ _ _).bind fun _ => .ok _
  · exact .error (.head _)

theorem failsAt_splitReference (keyword : Keyword) (rest : List Literal) :
    FailsAt [.parse] (splitReference keyword rest) := by
  unfold splitReference
  split
  next => exact .ok _
  next =>
    split
    next => exact .ok _
    next =>
      split
      · exact .ok _
      · exact .error (.head _)

theorem failsAt_countPlot (isExport : Bool) (keyword : Keyword) (first : Literal)
    (rest : List Literal) : FailsAt [.parse] (countPlot isExport keyword first rest) :=
  (failsAt_splitReference _ _).bind fun _ => (Expression.failsAt_countOf _ _).bind fun _ =>
    (failsAt_countDicts _ _ _).bind fun _ => .ok _

theorem failsAt_plotOf (quantity : Quantity) (isExport : Bool) (keyword : Keyword)
    (arguments : List Literal) : FailsAt [.parse] (plotOf quantity isExport keyword arguments) := by
  have hrest (parts : Expression × Dict × Dict) : FailsAt [.parse] (do
      let options ← Options.ofDict parts.2.1
      if isExport && options.filename.isNone then throw (.malformed (.noFilename keyword))
      return (⟨parts.1, options, parts.2.2, isExport⟩ : Plot)) := by
    refine (Options.failsAt_ofDict _).bind fun options => ?_
    simp only
    split
    · exact .error (.head _)
    · exact .ok _
  unfold plotOf
  split
  next => exact .error (.head _)
  next =>
    simp only
    split
    next => exact .error (.head _)
    next =>
      split
      · exact (failsAt_countPlot _ _ _ _).bind hrest
      · exact (failsAt_simplePlot _ _ _ _).bind hrest

theorem failsAt_parse (keyword : Keyword) (text : String) :
    FailsAt [.parse] (parse keyword text) := by
  unfold parse
  split
  next =>
    unfold ofArguments
    split
    · exact failsAt_figureOf _ _
    · exact failsAt_subplotOf _ _
    · exact failsAt_legendOf _ _
    · exact (failsAt_plotOf _ _ _ _).map _
    · exact (failsAt_plotOf _ _ _ _).map _
    · exact .error (.head _)
  next => exact .error (.head _)

end Directive

/-! ## Asking -/

namespace Pattern

variable (vocabulary : Vocabulary)

theorem failsAt_queryElement (text : String) :
    FailsAt [.evaluation] (queryElement vocabulary text) := by
  unfold queryElement
  split
  · exact .ok _
  · exact .error (.head _)

theorem failsAt_memberItem (pattern : Pattern) :
    FailsAt [.evaluation] (memberItem vocabulary pattern) := by
  unfold memberItem
  split
  next =>
    unfold nameItem
    split
    · exact .ok _
    · exact .ok _
    · exact .error (.head _)
  next => exact (FailsWith.mapM (failsAt_queryElement vocabulary) _).map _
  next => exact .error (.head _)

theorem failsAt_resolve (pattern : Pattern) :
    FailsAt [.evaluation] (resolve vocabulary pattern) := by
  unfold resolve
  split
  · exact .mapM (failsAt_memberItem vocabulary) _
  · exact (failsAt_memberItem vocabulary _).map _

end Pattern

namespace Query

variable (run : RunRecord)

theorem failsAt_behaviorOf (vocabulary : Vocabulary) (name : String) :
    FailsAt [.evaluation] (behaviorOf vocabulary name) := by
  unfold behaviorOf
  split
  · exact .ok _
  · exact .error (.head _)

theorem failsAt_ofExpression (expression : Expression) :
    FailsAt [.evaluation] (ofExpression run expression) := by
  have helement (name : String) := Pattern.failsAt_queryElement run.vocabulary name
  have hbehavior (name : String) := failsAt_behaviorOf run.vocabulary name
  have hitems (pattern : Pattern) := Pattern.failsAt_resolve run.vocabulary pattern
  unfold ofExpression
  split
  next => exact (helement _).bind fun _ => (hbehavior _).bind fun _ => .ok _
  next =>
    simp only
    split
    · exact .error (.head _)
    · exact (helement _).bind fun _ => .ok _
  next => exact (FailsWith.mapM helement _).bind fun _ => (hbehavior _).bind fun _ => .ok _
  next =>
    refine (hitems _).bind fun _ => ?_
    split
    · exact .ok _
    · exact (hitems _).bind fun _ => .ok _

theorem failsAt_resolve (expression : Expression) (options : Options) :
    FailsAt [.evaluation] (resolve run expression options) := by
  have hphases : FailsAt [.evaluation] (checkPhases run options.phases) := by
    unfold checkPhases
    split
    · exact .error (.head _)
    · exact .ok _
  exact hphases.bind fun _ => failsAt_ofExpression run expression

theorem failsAt_series (query : Query) (options : Options) (record : Record) :
    FailsAt [.evaluation] (query.series run options record) := by
  have hsteps : FailsAt [.evaluation] (selectedSteps run record options) := by
    unfold selectedSteps
    simp only
    split
    · exact .ok _
    · exact (Pattern.failsAt_resolve _ _).bind fun _ => .ok _
  exact hsteps.bind fun _ => .ok _

end Query

namespace Experiment

theorem failsAt_answer (run : RunRecord) (query : Query) (options : Options) :
    FailsAt [.evaluation] (answer run query options) := by
  have hseries (record : Record) := query.failsAt_series run options record
  unfold answer
  split
  next =>
    split
    · exact (hseries _).map _
    · exact .error (.head _)
  next => exact (FailsWith.mapM hseries _).map _
  next => exact (FailsWith.mapM hseries _).map _

theorem failsAt_evaluate (experiment : Experiment) (expression : Expression) (options : Options) :
    FailsAt [.evaluation] (experiment.evaluate expression options) := by
  have hrun : FailsAt [.evaluation] (experiment.selectRun options) := by
    unfold selectRun
    split
    next =>
      split
      · exact .ok _
      · exact .error (.head _)
    next =>
      split
      · exact .ok _
      · exact .error (.head _)
  exact hrun.bind fun run => (Query.failsAt_resolve run _ _).bind fun query =>
    failsAt_answer run query options

end Experiment

end Conditioning
