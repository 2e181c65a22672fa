import Conditioning.Phase.Step
import Conditioning.Phase.Text
import Conditioning.Proofs.Vocabulary

/-!
# Compiled phases

What is known of a phase because it was compiled from a text.
-/

namespace Conditioning

/-- Whether a phase has a count for a key. -/
def EndKey.IsOf (key : EndKey) (phase : Phase) : Prop :=
  match key with
  | .line i => i < phase.lines.length
  | .element e => e < phase.vocabulary.elementCount
  | .behavior b => b < phase.vocabulary.behaviorCount

namespace PhaseText

variable {vocabulary : Vocabulary} {labels : List String} {phase : String}

theorem readBelow?_lt {bound n : Nat} {cs : List Char}
    (h : Decimal.readBelow? bound cs = some n) : n < bound := by
  unfold Decimal.readBelow? at h
  split at h
  next => cases h
  next =>
    split at h
    next =>
      split at h
      next hlt => exact Option.some.inj h ▸ hlt
      next => cases h
    next => cases h

/-- A positive integer that was read fits a word. -/
theorem positive?_bounds {cs : List Char} {n : Nat} (h : positive? cs = some n) :
    0 < n ∧ n < UInt32.size := by
  unfold positive? at h
  split at h
  next m hm =>
    split at h
    next hpos =>
      cases h
      exact ⟨hpos, readBelow?_lt hm⟩
    next => cases h
  next => cases h

/-! ## Reading a phase backwards -/

/-- A guard that was read asks for a positive count if it asks for one. -/
theorem guard_count_pos {cs : List Char} {guard : Guard}
    (h : PhaseText.guard vocabulary phase cs = .ok guard) {n : Nat} (hn : guard.count = some n) :
    0 < n := by
  unfold PhaseText.guard at h
  split at h
  next behaviorText countText hcut =>
    split at h
    next => cases h
    next m hm =>
      obtain ⟨behavior, -, h⟩ := bind_eq_ok.1 h
      cases h
      cases hn
      exact (positive?_bounds hm).1
  next hcut =>
    split at h
    next m hm =>
      cases h
      cases hn
      exact (positive?_bounds hm).1
    next hm =>
      obtain ⟨behavior, -, h⟩ := bind_eq_ok.1 h
      cases h
      cases hn

theorem bounded_eq_ok {edgesText : String} {guard : Guard} {edges : List Edge}
    {condition : Condition} (h : bounded edgesText guard edges = .ok condition) :
    condition = ⟨guard, edges⟩ := by
  unfold bounded at h
  simp only at h
  split at h
  · cases h
  · exact (Except.ok.inj h).symm

/-- The guard of a condition was read from its text, or there is none, and its edges were read
from items, of which there is one at least. -/
theorem condition_eq_ok {cs : List Char} {condition : Condition}
    (h : PhaseText.condition vocabulary labels phase cs = .ok condition) :
    (condition.guard = ⟨none, none⟩ ∨
      ∃ text, PhaseText.guard vocabulary phase text = .ok condition.guard) ∧
    ∃ (edgesText : String) (items : List (List Char)), items ≠ [] ∧
      PhaseText.edges labels phase (String.ofList cs) edgesText (items.length == 1) [] items =
        .ok condition.edges := by
  have hitems (text : List Char) : (Text.pieces ',' text).map Text.trim ≠ [] :=
    mt List.map_eq_nil_iff.1 (Text.pieces_ne_nil _ _)
  unfold PhaseText.condition at h
  split at h
  · cases h
  · simp only at h
    split at h
    · obtain ⟨guard, hguard, h⟩ := bind_eq_ok.1 h
      obtain ⟨edges, hedges, h⟩ := bind_eq_ok.1 h
      cases bounded_eq_ok h
      exact ⟨.inr ⟨_, hguard⟩, _, _, hitems _, hedges⟩
    · obtain ⟨guard, hguard, h⟩ := bind_eq_ok.1 h
      obtain ⟨edges, hedges, h⟩ := bind_eq_ok.1 h
      cases bounded_eq_ok h
      exact ⟨.inl (Except.ok.inj hguard).symm, _, _, hitems _, hedges⟩

/-- The elements of a line were read from names, of which there is one at least, and its conditions
from texts, of which there is one at least too; the last of them is one that a line may end in. -/
theorem line_eq_ok {label : String} {cs : List Char} {line : Line}
    (h : PhaseText.line vocabulary labels phase label cs = .ok line) :
    line.label = label ∧
    (∃ (names : List String) (place : String), names ≠ [] ∧
      (names.mapM fun name => vocabulary.element name place) = .ok line.stimulus.elements) ∧
    (∃ texts : List (List Char), texts ≠ [] ∧ (texts.mapM fun text =>
      PhaseText.condition vocabulary labels phase (Text.trim text)) = .ok line.conditions) ∧
    ∀ last, line.conditions.getLast? = some last → closes last = true := by
  unfold PhaseText.line at h
  split at h
  next => cases h
  next stimulusText conditionsText _ =>
    split at h
    next => cases h
    next hne =>
      obtain ⟨elements, helements, h⟩ := bind_eq_ok.1 h
      obtain ⟨conditions, hconditions, h⟩ := bind_eq_ok.1 h
      have hnames : ∃ (names : List String) (place : String), names ≠ [] ∧
          (names.mapM fun name => vocabulary.element name place) = .ok elements :=
        ⟨_, _, hne, helements⟩
      have htexts : ∃ texts : List (List Char), texts ≠ [] ∧ (texts.mapM fun text =>
          PhaseText.condition vocabulary labels phase (Text.trim text)) = .ok conditions :=
        ⟨_, Text.pieces_ne_nil _ _, hconditions⟩
      split at h
      next last hlast =>
        split at h
        next hcloses =>
          cases h
          refine ⟨rfl, hnames, htexts, fun last' hlast' => ?_⟩
          rw [hlast] at hlast'
          exact Option.some.inj hlast' ▸ hcloses
        next => cases h
      next hlast =>
        cases h
        refine ⟨rfl, hnames, htexts, fun last' hlast' => ?_⟩
        rw [hlast] at hlast'
        cases hlast'

/-- An end condition that was read asks for at least one occurrence, and for no more than a word
can count. -/
theorem threshold_bounds {text : String} {ending : EndCondition}
    (h : endCondition vocabulary labels phase text = .ok ending) :
    0 < ending.threshold ∧ ending.threshold < UInt32.size := by
  unfold endCondition at h
  split at h
  next => cases h
  next =>
    simp only at h
    split at h
    next => cases h
    next threshold hthreshold =>
      split at h
      next =>
        cases h
        exact positive?_bounds hthreshold
      next => cases h

/-- The key of an end condition that was read is one that its text names. -/
theorem exists_endKey?_eq {text : String} {ending : EndCondition}
    (h : endCondition vocabulary labels phase text = .ok ending) :
    ∃ key, endKey? vocabulary labels key = some ending.key := by
  unfold endCondition at h
  split at h
  next => cases h
  next =>
    simp only at h
    split at h
    next => cases h
    next =>
      split at h
      next hkey =>
        cases h
        exact ⟨_, hkey⟩
      next => cases h

theorem compile_eq_ok {text : PhaseText} {compiled : Phase}
    (h : text.compile vocabulary = .ok compiled) :
    ∃ rows, labelled vocabulary text.label [] text.rows = .ok rows ∧
      (rows.mapM fun row =>
        line vocabulary (rows.map Prod.fst) text.label row.1 row.2) = .ok compiled.lines ∧
      endCondition vocabulary (rows.map Prod.fst) text.label text.ending = .ok compiled.ending := by
  unfold compile at h
  split at h
  · cases h
  · obtain ⟨rows, hrows, h⟩ := bind_eq_ok.1 h
    obtain ⟨lines, hlines, h⟩ := bind_eq_ok.1 h
    obtain ⟨ending, hending, h⟩ := bind_eq_ok.1 h
    cases h
    exact ⟨rows, hrows, hlines, hending⟩

/-- A phase whose parts can be read can be compiled. -/
theorem compile_of_read {text : PhaseText} {rows : List (String × List Char)} {lines : List Line}
    {ending : EndCondition} (hne : text.rows.isEmpty = false)
    (hrows : labelled vocabulary text.label [] text.rows = .ok rows)
    (hlines : (rows.mapM fun row =>
      line vocabulary (rows.map Prod.fst) text.label row.1 row.2) = .ok lines)
    (hending : endCondition vocabulary (rows.map Prod.fst) text.label text.ending = .ok ending) :
    text.compile vocabulary = .ok ⟨text.label, vocabulary, lines, ending⟩ := by
  unfold compile
  rw [if_neg (by simp [hne])]
  exact bind_eq_ok.2 ⟨rows, hrows, bind_eq_ok.2 ⟨lines, hlines, bind_eq_ok.2 ⟨ending, hending, rfl⟩⟩⟩

/-! ## What compiled phases are like -/

theorem threshold_pos_of_compile {text : PhaseText} {compiled : Phase}
    (h : text.compile vocabulary = .ok compiled) : 0 < compiled.ending.threshold := by
  obtain ⟨rows, -, -, hending⟩ := compile_eq_ok h
  exact (threshold_bounds hending).1

theorem threshold_lt_of_compile {text : PhaseText} {compiled : Phase}
    (h : text.compile vocabulary = .ok compiled) : compiled.ending.threshold < UInt32.size := by
  obtain ⟨rows, -, -, hending⟩ := compile_eq_ok h
  exact (threshold_bounds hending).2

theorem vocabulary_of_compile {text : PhaseText} {compiled : Phase}
    (h : text.compile vocabulary = .ok compiled) : compiled.vocabulary = vocabulary := by
  unfold compile at h
  split at h
  · cases h
  · obtain ⟨rows, -, h⟩ := bind_eq_ok.1 h
    obtain ⟨lines, -, h⟩ := bind_eq_ok.1 h
    obtain ⟨ending, -, h⟩ := bind_eq_ok.1 h
    cases h
    rfl

/-- An end condition that was read counts a line of the phase, or a declared element or
behavior. -/
theorem key_of_compile {text : PhaseText} {compiled : Phase}
    (h : text.compile vocabulary = .ok compiled) : compiled.ending.key.IsOf compiled := by
  obtain ⟨rows, -, hlines, hending⟩ := compile_eq_ok h
  obtain ⟨key, hkey⟩ := exists_endKey?_eq hending
  have hlength : compiled.lines.length = rows.length := (mapM_eq_ok.1 hlines).length_eq.symm
  have hvocabulary := vocabulary_of_compile h
  unfold endKey? at hkey
  rcases Option.or_eq_some_iff.1 hkey with hline | ⟨-, hkey⟩
  · obtain ⟨i, hi, he⟩ := Option.map_eq_some_iff.1 hline
    rw [← he]
    show i < compiled.lines.length
    have hlt := lt_length_of_idxOf? hi
    rw [hlength]
    simpa using hlt
  · rcases Option.or_eq_some_iff.1 hkey with helement | ⟨-, hbehavior⟩
    · obtain ⟨e, he, hkey⟩ := Option.map_eq_some_iff.1 helement
      rw [← hkey]
      show e < compiled.vocabulary.elementCount
      rw [hvocabulary]
      exact lt_length_of_idxOf? he
    · obtain ⟨b, hb, hkey⟩ := Option.map_eq_some_iff.1 hbehavior
      rw [← hkey]
      show b < compiled.vocabulary.behaviorCount
      rw [hvocabulary]
      exact lt_length_of_idxOf? hb

section

variable {phases : List Phase}

/-! The same for all phases of a list that were compiled, each with its own vocabulary. -/

theorem threshold_pos_of_compiled
    (h : ∀ phase ∈ phases, ∃ (text : PhaseText) (vocabulary : Vocabulary),
      text.compile vocabulary = .ok phase) : ∀ phase ∈ phases, 0 < phase.ending.threshold := by
  intro phase hphase
  obtain ⟨text, vocabulary, hcompile⟩ := h phase hphase
  exact threshold_pos_of_compile hcompile

theorem threshold_lt_of_compiled
    (h : ∀ phase ∈ phases, ∃ (text : PhaseText) (vocabulary : Vocabulary),
      text.compile vocabulary = .ok phase) :
    ∀ phase ∈ phases, phase.ending.threshold < UInt32.size := by
  intro phase hphase
  obtain ⟨text, vocabulary, hcompile⟩ := h phase hphase
  exact threshold_lt_of_compile hcompile

theorem key_of_compiled
    (h : ∀ phase ∈ phases, ∃ (text : PhaseText) (vocabulary : Vocabulary),
      text.compile vocabulary = .ok phase) : ∀ phase ∈ phases, phase.ending.key.IsOf phase := by
  intro phase hphase
  obtain ⟨text, vocabulary, hcompile⟩ := h phase hphase
  exact key_of_compile hcompile

end

/-! ## A phase to try things on -/

/-- The vocabulary of `trial`. -/
def trialVocabulary : Vocabulary := ⟨["cs", "us"], ["wait", "press"]⟩

/-- The conditioned stimulus is shown until it was answered by two presses in succession; then
the unconditioned one is shown. -/
def trial : PhaseText where
  label := "trial"
  ending := "us=2"
  rows := ["CS cs | press=2: US | CS", "US us | CS"]

/-- The phase that `trial` stands for. -/
def trialPhase : Phase where
  label := "trial"
  vocabulary := trialVocabulary
  lines := [
    ⟨"CS", ⟨[0]⟩, [⟨⟨some 1, some 2⟩, [⟨1.0, 1⟩]⟩, ⟨⟨none, none⟩, [⟨1.0, 0⟩]⟩]⟩,
    ⟨"US", ⟨[1]⟩, [⟨⟨none, none⟩, [⟨1.0, 0⟩]⟩]⟩]
  ending := ⟨.element 1, 2⟩

/-- A name in small letters is no literal, so it stands for itself. -/
theorem stimulusNames_of_noValue {name : String}
    (hread : Literal.parse name = .error ⟨name, 0, .noValue⟩)
    (hname : Text.trim (withoutQuotes name.toList) = name.toList) (hne : name.toList ≠ []) :
    stimulusNames name.toList = [name] := by
  rw [stimulusNames, String.ofList_toList, hread]
  cases hcs : name.toList with
  | nil => exact absurd hcs hne
  | cons c cs =>
    rw [hcs] at hname
    simp only [hname]
    rw [← hcs, String.ofList_toList]

theorem stimulusNames_cs : stimulusNames (Text.trim "cs ".toList) = ["cs"] := by
  have hread : Literal.parse "cs" = .error ⟨"cs", 0, .noValue⟩ := by
    rw [Literal.parse, Literal.readValue]
    rfl
  exact stimulusNames_of_noValue hread rfl (by decide)

theorem line_cs :
    line trialVocabulary ["CS", "US"] "trial" "CS" "cs | press=2: US | CS".toList =
      .ok ⟨"CS", ⟨[0]⟩, [⟨⟨some 1, some 2⟩, [⟨1.0, 1⟩]⟩, ⟨⟨none, none⟩, [⟨1.0, 0⟩]⟩]⟩ := by
  have hcut : Text.cut '|' "cs | press=2: US | CS".toList =
      some ("cs ".toList, " press=2: US | CS".toList) := rfl
  simp only [line, hcut, stimulusNames_cs]
  rfl

theorem line_us (phase : String) :
    line trialVocabulary ["CS", "US"] phase "US" "us | CS".toList =
      .ok ⟨"US", ⟨[1]⟩, [⟨⟨none, none⟩, [⟨1.0, 0⟩]⟩]⟩ := by
  have hcut : Text.cut '|' "us | CS".toList = some ("us ".toList, " CS".toList) := rfl
  have hread : Literal.parse "us" = .error ⟨"us", 0, .noValue⟩ := by
    rw [Literal.parse, Literal.readValue]
    rfl
  have hnames : stimulusNames (Text.trim "us ".toList) = ["us"] :=
    stimulusNames_of_noValue hread rfl (by decide)
  simp only [line, hcut, hnames]
  rfl

theorem compile_trial : trial.compile trialVocabulary = .ok trialPhase := by
  have hrows : labelled trialVocabulary trial.label [] trial.rows =
      .ok [("CS", "cs | press=2: US | CS".toList), ("US", "us | CS".toList)] := rfl
  have hlines : ([("CS", "cs | press=2: US | CS".toList), ("US", "us | CS".toList)].mapM fun row =>
      line trialVocabulary ["CS", "US"] trial.label row.1 row.2) = .ok trialPhase.lines :=
    mapM_eq_ok.2 (.cons line_cs (.cons (line_us _) .nil))
  have hending : endCondition trialVocabulary ["CS", "US"] trial.label trial.ending =
      .ok trialPhase.ending := rfl
  exact compile_of_read rfl hrows hlines hending

end PhaseText

end Conditioning
