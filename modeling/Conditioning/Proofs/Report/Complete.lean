import Conditioning.Command
import Conditioning.Proofs.Report.Written
import Conditioning.Proofs.Script.Declared

/-!
# All of a report or nothing

A run of a script file is refused or reported.  It is refused if the file cannot be
read, if its text is no script, if a run of the script cannot be simulated, or if a
plot or an export has no answer (`Command.Refused`); then nothing is printed.  In all
other cases one report is printed: a text that says one JSON value, which has an
entry for each plot and export that the script declares, and for each of its runs
(`Command.report_or_nothing`).  An entry holds doubles as they are, but for those
that are not finite, which JSON has no numbers for.
-/

namespace Conditioning

/-! ## Plots that are declared -/

/-- Whether a keyword is that of a plot or an export. -/
def Keyword.isPlot : Keyword → Bool
  | plot _ => true
  | save _ => true
  | _ => false

/-- The plot or the export that is declared. -/
def Declaration.plot? : Declaration → Option Plot
  | directive (.plot plot) => some plot
  | _ => none

namespace Directive

variable {keyword : Keyword} {arguments : List Literal} {directive : Directive}

theorem plot?_of_figureOf (h : figureOf keyword arguments = .ok directive) :
    (Declaration.directive directive).plot? = none := by
  unfold figureOf at h
  split at h
  · cases h; rfl
  · cases h; rfl
  · cases h; rfl
  · obtain ⟨_, -, h⟩ := bind_eq_ok.1 h
    cases h
    rfl
  · cases h
  · cases h
  · cases h

theorem plot?_of_subplotOf (h : subplotOf keyword arguments = .ok directive) :
    (Declaration.directive directive).plot? = none := by
  have hplace {place : Literal} {properties : Dict}
      (h : subplotAt keyword place properties = .ok directive) :
      (Declaration.directive directive).plot? = none := by
    unfold subplotAt at h
    split at h
    · cases h; rfl
    · cases h
  unfold subplotOf at h
  split at h
  · exact hplace h
  · obtain ⟨_, -, h⟩ := bind_eq_ok.1 h
    exact hplace h
  · cases h

theorem plot?_of_legendOf (h : legendOf keyword arguments = .ok directive) :
    (Declaration.directive directive).plot? = none := by
  unfold legendOf at h
  split at h
  · cases h; rfl
  · cases h; rfl
  · obtain ⟨_, -, h⟩ := bind_eq_ok.1 h
    cases h
    rfl
  · obtain ⟨_, -, h⟩ := bind_eq_ok.1 h
    obtain ⟨_, -, h⟩ := bind_eq_ok.1 h
    cases h
    rfl
  · cases h

/-- Plots and exports have keywords of their own. -/
theorem isSome_plot?_of_parse {text : String} (h : Directive.parse keyword text = .ok directive) :
    (Declaration.directive directive).plot?.isSome = keyword.isPlot := by
  unfold parse at h
  split at h
  next arguments _ =>
    unfold ofArguments at h
    split at h
    next => rw [plot?_of_figureOf h]; rfl
    next => rw [plot?_of_subplotOf h]; rfl
    next => rw [plot?_of_legendOf h]; rfl
    next =>
      obtain ⟨_, -, rfl⟩ := map_eq_ok.1 h
      rfl
    next =>
      obtain ⟨_, -, rfl⟩ := map_eq_ok.1 h
      rfl
    next => cases h
  next => cases h

end Directive

namespace Block

variable {block : Block} {declaration : Declaration}

/-- What is declared is a plot, or a run, just if the keyword says so. -/
theorem isSome_of_declaration? (h : block.declaration? = some declaration) :
    declaration.plot?.isSome = block.keyword.isPlot ∧
      declaration.runLabel?.isSome = decide (block.keyword = .run) := by
  unfold declaration? at h
  split at h
  next hkeyword =>
    cases h
    rw [hkeyword]
    exact ⟨rfl, rfl⟩
  next hkeyword =>
    obtain ⟨_, -, h⟩ := Option.bind_eq_some_iff.1 h
    obtain ⟨_, -, h⟩ := Option.bind_eq_some_iff.1 h
    cases h
    rw [hkeyword]
    exact ⟨rfl, rfl⟩
  next hkeyword =>
    obtain ⟨_, -, h⟩ := Option.bind_eq_some_iff.1 h
    obtain ⟨_, -, h⟩ := Option.bind_eq_some_iff.1 h
    obtain ⟨_, -, h⟩ := Option.bind_eq_some_iff.1 h
    obtain ⟨_, -, h⟩ := Option.bind_eq_some_iff.1 h
    cases h
    rw [hkeyword]
    exact ⟨rfl, rfl⟩
  next hkeyword =>
    obtain ⟨_, -, h⟩ := Option.bind_eq_some_iff.1 h
    obtain ⟨_, -, h⟩ := Option.bind_eq_some_iff.1 h
    obtain ⟨_, -, h⟩ := Option.bind_eq_some_iff.1 h
    cases h
    rw [hkeyword]
    exact ⟨rfl, rfl⟩
  next hrun =>
    obtain ⟨directive, hparse, rfl⟩ := Option.map_eq_some_iff.1 h
    have hplot := Directive.isSome_plot?_of_parse (eq_ok_of_toOption_eq_some hparse)
    exact ⟨hplot, (decide_eq_false hrun).symm⟩

end Block

/-- As many blocks have a property as there are declarations with the corresponding one. -/
theorem countP_of_mapM {α β : Type} {f : α → Option β} {p : α → Bool} {q : β → Bool}
    (hpq : ∀ a b, f a = some b → q b = p a) {xs : List α} {ys : List β} (h : xs.mapM f = some ys) :
    ys.countP q = xs.countP p := by
  induction xs generalizing ys with
  | nil =>
    cases h
    rfl
  | cons x xs ih =>
    rw [List.mapM_cons] at h
    obtain ⟨y, hy, h⟩ := Option.bind_eq_some_iff.1 h
    obtain ⟨ys, hys, h⟩ := Option.bind_eq_some_iff.1 h
    cases h
    rw [List.countP_cons, List.countP_cons, ih hys, hpq x y hy]

/-- The plots and exports that are declared. -/
def plotsOf (declarations : List Declaration) : List Plot :=
  declarations.filterMap Declaration.plot?

section

variable {blocks : List Block} {declarations : List Declaration}

theorem length_plotsOf (h : blocks.mapM Block.declaration? = some declarations) :
    (plotsOf declarations).length = blocks.countP fun block => block.keyword.isPlot := by
  rw [plotsOf, List.length_filterMap_eq_countP]
  exact countP_of_mapM (fun _ _ h => (Block.isSome_of_declaration? h).1) h

theorem length_runsOf (h : blocks.mapM Block.declaration? = some declarations) :
    (runsOf declarations).length = blocks.countP fun block => block.keyword = .run := by
  have hcount : (runsOf declarations).length =
      declarations.countP fun declaration => declaration.runLabel?.isSome := by
    clear h
    induction declarations using List.reverseRecOn with
    | nil => rfl
    | append_singleton declarations declaration ih =>
      rw [runsOf_append_singleton, List.length_append, ih, List.countP_append,
        List.countP_singleton]
      cases declaration <;> rfl
  exact hcount.trans (countP_of_mapM (fun _ _ h => (Block.isSome_of_declaration? h).2) h)

theorem Draft.Holds.plots {draft : Draft} (h : draft.Holds declarations) :
    draft.script.plots = plotsOf declarations := by
  rw [Script.plots, h.directives, List.filterMap_filterMap, plotsOf]
  refine congrArg (List.filterMap · declarations) (funext fun declaration => ?_)
  cases declaration with
  | directive directive => cases directive <;> rfl
  | _ => rfl

end

/-! ## Texts of expressions -/

/-- How a pattern is written: a name as it is, the names of a compound in parentheses and the
patterns of a sequence in brackets, with commas between them. -/
inductive Pattern.HasText : Pattern → String → Prop where
  | name (name : String) : HasText (.name name) name
  | compound (names : List String) :
    HasText (.compound names) ("(" ++ String.intercalate "," names ++ ")")
  | sequence {items : List Pattern} {texts : List String} (h : List.Forall₂ HasText items texts) :
    HasText (.sequence items) ("[" ++ String.intercalate "," texts ++ "]")

/-- How an expression is written: its quantity, and in parentheses what it is the quantity of.  A
stimulus of one element has no parentheses of its own. -/
inductive Expression.HasText : Expression → String → Prop where
  | v (element behavior : String) :
    HasText (.v element behavior) ("v(" ++ element ++ "->" ++ behavior ++ ")")
  | w (element : String) : HasText (.w element) ("w(" ++ element ++ ")")
  | one (element behavior : String) :
    HasText (.p [element] behavior) ("p(" ++ element ++ "->" ++ behavior ++ ")")
  | many {elements : List String} (behavior : String) (h : elements.length ≠ 1) :
    HasText (.p elements behavior)
      ("p(" ++ ("(" ++ String.intercalate "," elements ++ ")") ++ "->" ++ behavior ++ ")")
  | n {pattern : Pattern} {text : String} (h : pattern.HasText text) :
    HasText (.n pattern none) ("n(" ++ text ++ ")")
  | ratio {pattern reference : Pattern} {text text' : String} (h : pattern.HasText text)
      (h' : reference.HasText text') :
    HasText (.n pattern (some reference)) ("n(" ++ text ++ ")/n(" ++ text' ++ ")")

mutual

theorem Pattern.hasText_toText (pattern : Pattern) : pattern.HasText pattern.toText := by
  match pattern with
  | .name text =>
    rw [Pattern.toText]
    exact .name text
  | .compound names =>
    rw [Pattern.toText]
    exact .compound names
  | .sequence items =>
    rw [Pattern.toText]
    exact .sequence (Pattern.forall₂_texts items)

theorem Pattern.forall₂_texts (items : List Pattern) :
    List.Forall₂ Pattern.HasText items (Pattern.texts items) := by
  match items with
  | [] =>
    rw [Pattern.texts]
    exact .nil
  | item :: items =>
    rw [Pattern.texts]
    exact .cons (Pattern.hasText_toText item) (Pattern.forall₂_texts items)

end

theorem Expression.hasText_toText (expression : Expression) :
    expression.HasText expression.toText := by
  match expression with
  | .v element behavior => exact .v element behavior
  | .w element => exact .w element
  | .p [] behavior => exact .many behavior (by decide)
  | .p [element] behavior => exact .one element behavior
  | .p (element :: next :: elements) behavior => exact .many behavior (by simp)
  | .n pattern none => exact .n pattern.hasText_toText
  | .n pattern (some reference) => exact .ratio pattern.hasText_toText reference.hasText_toText

/-! ## Entries of a report -/

/-- A series of doubles. -/
def Json.ofSeries (values : List Float) : Json :=
  .array (values.map Json.ofDouble)

/-- The entry of a plot or an export: its file if it has one, its expression and the answer of what
was recorded, as one series or as one for each subject. -/
def Plot.HasEntry (experiment : Experiment) (plot : Plot) (entry : Json) : Prop :=
  ∃ values text, experiment.evaluate plot.expression plot.options = .ok values ∧
    plot.expression.HasText text ∧
    entry = .object [
      ("export", match plot.options.filename with
        | some name => .text name
        | none => .null),
      ("expression", .text text),
      ("values", match values with
        | .series values => .ofSeries values
        | .perSubject values => .array (values.map .ofSeries))]

/-- The entry of a run: its label, and how many steps each of its subjects took. -/
def DeclaredRun.HasEntry (experiment : Experiment) (declared : DeclaredRun) (entry : Json) : Prop :=
  ∃ record subjects, (declared.label, record) ∈ experiment.runs ∧
    (settingsOf declared.before).subjects = .ok subjects ∧ record.subjects.length = subjects ∧
    entry = .object [
      ("has_w", .bool record.hasSalience),
      ("label", .text declared.label),
      ("phases", .array (record.phaseLabels.map .text)),
      ("steps", .array (record.subjects.map fun subject => .natural subject.history.size))]

namespace Report

variable {script : Script} {experiment : Experiment} {report : Report}

theorem finite_seriesJson (values : List Float) : (seriesJson values).finite = .ofSeries values := by
  rw [seriesJson, Json.finite, Json.finiteItems_eq_map, List.map_map]
  refine congrArg (fun f => Json.array (values.map f)) (funext fun x => ?_)
  rw [Function.comp_apply, Json.finite]

theorem finite_evaluationJson (values : Evaluation) : (evaluationJson values).finite =
    match values with
    | .series values => .ofSeries values
    | .perSubject values => .array (values.map .ofSeries) := by
  cases values with
  | series values => exact finite_seriesJson values
  | perSubject values =>
    rw [evaluationJson, Json.finite, Json.finiteItems_eq_map, List.map_map]
    exact congrArg (fun f => Json.array (values.map f)) (funext finite_seriesJson)

/-- What is said of a run has no doubles in it. -/
theorem finite_summaryJson (summary : Summary) :
    (summaryJson summary).finite = summaryJson summary := by
  simp [summaryJson, Json.finite, Json.finiteMembers, Json.finiteItems_eq_map]

theorem finite_toJson (report : Report) : report.toJson.finite = .object [
    ("comment", .text report.comment),
    ("results", .array (report.results.map fun result => (resultJson result).finite)),
    ("runs", .array (report.runs.map summaryJson))] := by
  have hruns : (Json.finite ∘ summaryJson) = summaryJson := funext finite_summaryJson
  simp [toJson, Json.finite, Json.finiteMembers, Json.finiteItems_eq_map, hruns]

/-- The result of a plot is said as its entry. -/
theorem hasEntry_of_resultOf {plot : Plot} {result : PlotResult}
    (h : resultOf experiment plot = .ok result) :
    plot.HasEntry experiment (resultJson result).finite := by
  obtain ⟨values, hvalues, h⟩ := bind_eq_ok.1 h
  cases h
  refine ⟨values, _, hvalues, plot.expression.hasText_toText, ?_⟩
  rw [← finite_evaluationJson, resultJson]
  cases plot.options.filename <;>
    simp only [optionalText, Json.finite, Json.finiteMembers]

theorem make_eq_ok (h : make script experiment = .ok report) :
    report.comment = script.commentText ∧
      List.Forall₂ (Plot.HasEntry experiment) script.plots
        (report.results.map fun result => (resultJson result).finite) ∧
      report.runs = experiment.summaries := by
  obtain ⟨results, hresults, h⟩ := bind_eq_ok.1 h
  cases h
  exact ⟨rfl, List.forall₂_map_right_iff.2
    ((mapM_eq_ok.1 hresults).imp fun _ _ => hasEntry_of_resultOf), rfl⟩

/-- No report can be made just if a plot or an export has no answer. -/
theorem make_eq_error {error : Error} (h : make script experiment = .error error) :
    ∃ plot ∈ script.plots, experiment.evaluate plot.expression plot.options = .error error := by
  rcases bind_eq_error.1 h with h | ⟨results, -, h⟩
  · obtain ⟨before, plot, later, hplots, -, hplot⟩ := mapM_eq_error.1 h
    rcases bind_eq_error.1 hplot with hplot | ⟨values, -, hplot⟩
    · exact ⟨plot, hplots ▸ List.mem_append_right _ List.mem_cons_self, hplot⟩
    · cases hplot
  · cases h

end Report

/-- The summaries of what was recorded are the entries of the runs that are declared. -/
theorem forall₂_hasEntry {script : Script} {declarations : List Declaration} {budget : Nat}
    {seed : UInt64} {experiment : Experiment} (hnodup : (script.runs.map Run.label).Nodup)
    (hgives : List.Forall₂ DeclaredRun.Gives (runsOf declarations) script.runs)
    (h : script.simulate budget seed = .ok experiment) :
    List.Forall₂ (DeclaredRun.HasEntry experiment) (runsOf declarations)
      (experiment.summaries.map Report.summaryJson) := by
  have hrecords := Script.forall₂_of_simulate hnodup h
  have hrecorded : List.Forall₂ (fun run labelled => labelled ∈ experiment.runs ∧
      labelled.1 = run.label ∧ labelled.2.subjects.length = run.subjects)
      script.runs experiment.runs := by
    refine (((List.forall₂_and_left _ _).2 ⟨fun _ h => h, hrecords.flip⟩).flip).imp ?_
    rintro run labelled ⟨hmem, hlabel, g, g', hsimulate⟩
    exact ⟨hmem, hlabel, Run.length_subjects_of_simulate hsimulate⟩
  rw [Experiment.summaries, List.map_map, List.forall₂_map_right_iff]
  -- the records are in the order of the runs, and the runs in that of the declarations
  refine (forall₂_comp hgives hrecorded).imp ?_
  rintro declared ⟨label, record⟩ ⟨run, hrun, hmem, hlabel, hlength⟩
  have hdeclared : label = declared.label := hlabel.trans hrun.label
  subst hdeclared
  refine ⟨record, run.subjects, hmem, hrun.subjects, hlength, ?_⟩
  simp only [Function.comp_apply, Report.summaryJson, List.map_map]
  rfl

/-! ## Replies -/

namespace Command

/-- Why a run of a script file gives no report. -/
inductive Refused (budget : Nat) (seed : UInt64) (file : Except FileFault ByteArray) : Prop where
  | file {fault : FileFault} (h : file.bind decode = .error fault)
  | script {text : String} {error : Error} (hfile : file.bind decode = .ok text)
      (h : Script.parse text = .error error)
  | run {text : String} {script : Script} {halt : Halt} (hfile : file.bind decode = .ok text)
      (hscript : Script.parse text = .ok script) (h : script.simulate budget seed = .error halt)
  | query {text : String} {script : Script} {experiment : Experiment} {plot : Plot} {error : Error}
      (hfile : file.bind decode = .ok text) (hscript : Script.parse text = .ok script)
      (hrun : script.simulate budget seed = .ok experiment) (hplot : plot ∈ script.plots)
      (h : experiment.evaluate plot.expression plot.options = .error error)

/-- A report of a script file: the text of one JSON value, which has an entry for each plot and
export, and for each run, that the script declares. -/
def Reports (budget : Nat) (seed : UInt64) (file : Except FileFault ByteArray) (output : String) :
    Prop :=
  ∃ text script experiment blocks declarations results runs,
    file.bind decode = .ok text ∧ Script.parse text = .ok script ∧
    script.simulate budget seed = .ok experiment ∧
    blocksOf (cleanLines text.toList) = .ok blocks ∧
    blocks.mapM Block.declaration? = some declarations ∧
    (∀ value, Json.Says output value ↔ value = .object [
      ("comment", .text script.commentText),
      ("results", .array results),
      ("runs", .array runs)]) ∧
    List.Forall₂ (Plot.HasEntry experiment) (plotsOf declarations) results ∧
    results.length = (blocks.countP fun block => block.keyword.isPlot) ∧
    List.Forall₂ (DeclaredRun.HasEntry experiment) (runsOf declarations) runs ∧
    runs.length = blocks.countP fun block => block.keyword = .run

section

variable {budget : Nat} {seed : UInt64} {file : Except FileFault ByteArray} {text : String}
  {script : Script} {experiment : Experiment} {report : Report}

theorem reports_of_make (hfile : file.bind decode = .ok text)
    (hscript : Script.parse text = .ok script) (hrun : script.simulate budget seed = .ok experiment)
    (h : Report.make script experiment = .ok report) :
    Reports budget seed file (report.toJson.pretty 0 ++ "\n") := by
  obtain ⟨hcomment, hresults, hruns⟩ := Report.make_eq_ok h
  have hnodup := Script.nodup_labels_of_parse hscript
  obtain ⟨blocks, draft, hblocks, hdraft, hparsed⟩ := Script.parse_eq_ok hscript
  obtain ⟨declarations, hdeclarations, hholds⟩ := Draft.holds_of_foldlM hdraft
  rw [← hparsed] at hresults hnodup hrun
  rw [hholds.plots] at hresults
  have hentries := forall₂_hasEntry hnodup hholds.runs hrun
  refine ⟨text, script, experiment, blocks, declarations, _, _, hfile, hscript, hparsed ▸ hrun,
    hblocks, hdeclarations, ?_, hresults, ?_, hentries, ?_⟩
  · intro value
    rw [Json.says_pretty_iff, Report.finite_toJson, hcomment, hruns]
  · rw [← hresults.length_eq, length_plotsOf hdeclarations]
  · rw [← hentries.length_eq, length_runsOf hdeclarations]

theorem not_refused_of_make (hfile : file.bind decode = .ok text)
    (hscript : Script.parse text = .ok script) (hrun : script.simulate budget seed = .ok experiment)
    (hmake : Report.make script experiment = .ok report) : ¬Refused budget seed file := by
  intro hrefused
  cases hrefused with
  | file h => cases hfile.symm.trans h
  | script hfile' h =>
    cases hfile.symm.trans hfile'
    cases hscript.symm.trans h
  | run hfile' hscript' h =>
    cases hfile.symm.trans hfile'
    cases hscript.symm.trans hscript'
    cases hrun.symm.trans h
  | query hfile' hscript' hrun' hplot h =>
    cases hfile.symm.trans hfile'
    cases hscript.symm.trans hscript'
    cases hrun.symm.trans hrun'
    obtain ⟨_, -, _, _, hvalues, -⟩ :=
      exists_of_mem_forall₂ (Report.make_eq_ok hmake).2.1.flip hplot
    cases hvalues.symm.trans h

end

/-- A run of a script file is refused, or a whole report is printed. -/
theorem answer_cases (budget : Nat) (path : String) (seed : Option UInt64)
    (file : Except FileFault ByteArray) :
    (∃ words, answer budget (.run path seed) file = failure words ∧
      Refused budget (seed.getD standardSeed) file) ∨
    ∃ output, answer budget (.run path seed) file = ⟨0, output, none⟩ ∧
      Reports budget (seed.getD standardSeed) file output ∧
      ¬Refused budget (seed.getD standardSeed) file := by
  rw [answer]
  split
  next fault hfile => exact .inl ⟨_, rfl, .file hfile⟩
  next text hfile =>
    rw [reportOf]
    split
    next error hscript => exact .inl ⟨_, rfl, .script hfile hscript⟩
    next script hscript =>
      split
      next hrun => exact .inl ⟨_, rfl, .run hfile hscript hrun⟩
      next error hrun => exact .inl ⟨_, rfl, .run hfile hscript hrun⟩
      next experiment hrun =>
        split
        next error hmake =>
          obtain ⟨plot, hplot, herror⟩ := Report.make_eq_error hmake
          exact .inl ⟨_, rfl, .query hfile hscript hrun hplot herror⟩
        next report hmake =>
          exact .inr ⟨_, rfl, reports_of_make hfile hscript hrun hmake,
            not_refused_of_make hfile hscript hrun hmake⟩

/-- A run of a script file that fails prints nothing, and one that succeeds prints one whole
report. -/
theorem report_or_nothing (budget : Nat) (arguments : List String)
    (file : Except FileFault ByteArray) :
    let reply := respond budget ("run" :: arguments) file
    (reply.status = 1 → reply.output = "") ∧
    (reply.status = 0 → ∃ path seed, request ("run" :: arguments) = .ok (.run path seed) ∧
      Reports budget (seed.getD standardSeed) file reply.output) ∧
    (reply.status = 1 ↔ ∃ path seed, request ("run" :: arguments) = .ok (.run path seed) ∧
      Refused budget (seed.getD standardSeed) file) ∧
    (reply.status = 2 ↔ ∃ misuse, request ("run" :: arguments) = .error misuse) ∧
    (reply.status = 0 ∨ reply.status = 1 ∨ reply.status = 2) := by
  intro reply
  cases hrequest : request ("run" :: arguments) with
  | error misuse =>
    have hreply : reply = misuseReply misuse := by
      show respond budget ("run" :: arguments) file = _
      rw [respond, hrequest]
    rw [hreply]
    refine ⟨nofun, nofun, ⟨nofun, ?_⟩, ⟨fun _ => ⟨misuse, rfl⟩, fun _ => rfl⟩, .inr (.inr rfl)⟩
    rintro ⟨_, _, h, -⟩
    cases h
  | ok found =>
    obtain ⟨⟨path, seed⟩, -, rfl⟩ := map_eq_ok.1 hrequest
    have hreply : reply = answer budget (.run path seed) file := by
      show respond budget ("run" :: arguments) file = _
      rw [respond, hrequest]
    rcases answer_cases budget path seed file with
      ⟨words, hanswer, hrefused⟩ | ⟨output, hanswer, hreports, hnot⟩
    · rw [hreply, hanswer]
      refine ⟨fun _ => rfl, nofun, ⟨fun _ => ⟨path, seed, rfl, hrefused⟩, fun _ => rfl⟩,
        ⟨nofun, nofun⟩, .inr (.inl rfl)⟩
    · rw [hreply, hanswer]
      refine ⟨nofun, fun _ => ⟨path, seed, rfl, hreports⟩, ⟨nofun, ?_⟩, ⟨nofun, nofun⟩, .inl rfl⟩
      rintro ⟨_, _, h, hrefused⟩
      cases h
      exact absurd hrefused hnot

theorem bind_decode_toUTF8 (text : String) : (Except.ok text.toUTF8).bind decode = .ok text := by
  have hvalid : text.toUTF8.IsValidUTF8 := text.isValidUTF8
  show decode text.toUTF8 = _
  rw [decode, String.fromUTF8?, dif_pos hvalid]
  rfl

/-- The pairings, and a plot of how often the unconditioned stimulus comes. -/
def pairingsPlotted : String := Script.pairings ++ "\n" ++ "@nplot 'us'"

/-- The block of the plot. -/
def plotBlock : Block := ⟨.plot .n, some "'us'", []⟩

/-- The script of `pairingsPlotted`. -/
def plottedScript : Script :=
  { Script.pairingDraft.script with
    directives := [.plot ⟨.n (.name "us") none, Options.default, Dict.empty, false⟩] }

theorem cleanLines_plot : cleanLines "@nplot 'us'".toList = ["@nplot 'us'".toList] := by
  decide +kernel

theorem blocksOf_plot : blocksOf (cleanLines "@nplot 'us'".toList) = .ok [plotBlock] := by
  rw [cleanLines_plot]
  exact blocksOf_cons rfl rfl blocksOf_nil

open Literal in
theorem parse_pairingsPlotted : Script.parse pairingsPlotted = .ok plottedScript := by
  have hread : Reads "'us'".toList (.str "us") [] := .quoted "us" [] rfl (.inl rfl) rfl
  have hplot : Directive.parse (.plot .n) "'us'" =
      .ok (.plot ⟨.n (.name "us") none, Options.default, Dict.empty, false⟩) := by
    rw [Directive.parse, parseSequence_of_reads hread rfl]
    rfl
  have hdraft : [plotBlock].foldlM Draft.addBlock Script.pairingDraft =
      .ok ⟨plottedScript, 0, 0⟩ := by
    rw [List.foldlM_cons]
    exact bind_eq_ok.2 ⟨_, bind_eq_ok.2 ⟨_, hplot, rfl⟩, rfl⟩
  exact Script.parse_pairings_newline ⟨_, _, cleanLines_plot, rfl⟩ blocksOf_plot hdraft

/-- The plot and the run have an entry each, and if the file is missing nothing is printed. -/
theorem report_or_nothing_pairingsPlotted :
    (respond 5 ["run", "pairings"] (.ok pairingsPlotted.toUTF8)).status = 0 ∧
    (∃ comment results runs, (∀ value,
        Json.Says (respond 5 ["run", "pairings"] (.ok pairingsPlotted.toUTF8)).output value ↔
          value = .object [("comment", .text comment), ("results", .array results),
            ("runs", .array runs)]) ∧
      results.length = 1 ∧ runs.length = 1) ∧
    (respond 5 ["run", "pairings"] (.error .missing)).status = 1 ∧
    (respond 5 ["run", "pairings"] (.error .missing)).output = "" := by
  have hrequest : request ["run", "pairings"] = .ok (.run "pairings" none) := rfl
  obtain ⟨-, hreports, hrefused, hmisuse, hstatus⟩ :=
    report_or_nothing 5 ["pairings"] (.ok pairingsPlotted.toUTF8)
  have hfile : (Except.ok pairingsPlotted.toUTF8).bind decode = .ok pairingsPlotted :=
    bind_decode_toUTF8 pairingsPlotted
  have hzero : (respond 5 ["run", "pairings"] (.ok pairingsPlotted.toUTF8)).status = 0 := by
    have hsome : ((plottedScript.simulate 5 1).toOption.bind fun experiment =>
        (Report.make plottedScript experiment).toOption).isSome = true := by decide +kernel
    obtain ⟨report, hreport⟩ := Option.isSome_iff_exists.1 hsome
    obtain ⟨experiment, hexperiment, hmake⟩ := Option.bind_eq_some_iff.1 hreport
    rcases hstatus with h | h | h
    · exact h
    · obtain ⟨_, _, hrun, hbad⟩ := hrefused.1 h
      cases hrequest.symm.trans hrun
      exact absurd hbad (not_refused_of_make hfile parse_pairingsPlotted
        (eq_ok_of_toOption_eq_some hexperiment) (eq_ok_of_toOption_eq_some hmake))
    · obtain ⟨_, hbad⟩ := hmisuse.1 h
      cases hrequest.symm.trans hbad
  obtain ⟨_, _, -, text, script, _, blocks, _, results, runs, htext, -, -, hblocks, -, houtput, -,
    hresults, -, hruns⟩ := hreports hzero
  cases hfile.symm.trans htext
  have hblocks' : blocksOf (cleanLines pairingsPlotted.toList) =
      .ok (Script.pairingBlocks ++ [plotBlock]) :=
    Script.blocksOf_pairings_newline ⟨_, _, cleanLines_plot, rfl⟩ blocksOf_plot
  cases hblocks'.symm.trans hblocks
  obtain ⟨houtput', -, hmissing, -, -⟩ := report_or_nothing 5 ["pairings"] (.error .missing)
  have hone := hmissing.2 ⟨"pairings", none, hrequest, .file rfl⟩
  exact ⟨hzero, ⟨script.commentText, results, runs, houtput, hresults, hruns⟩, hone, houtput' hone⟩

end Command

end Conditioning
