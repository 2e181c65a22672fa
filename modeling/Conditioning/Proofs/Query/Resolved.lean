import Conditioning.Proofs.Except
import Conditioning.Proofs.Phase.Compiled
import Conditioning.Query.Evaluation

/-!
# What a resolved query asks for

A sequence that is read from a literal has items.  So has the pattern of an
expression or of options, however they are read, and resolving its names keeps their
number: there is always an item to look for (`Pattern.resolve_ne_nil`).  The elements
and behaviors that are found are those of the run (`Query.inRange_of_resolve`).
-/

namespace Conditioning

/-! ## Patterns with items -/

namespace Pattern

/-- A pattern that is a sequence has items. -/
def Proper : Pattern → Prop
  | .sequence items => items ≠ []
  | _ => True

variable {pattern : Pattern} {value : Literal} {vocabulary : Vocabulary}

theorem proper_of_ofSimple (h : ofSimple value = .ok pattern) : pattern.Proper := by
  unfold ofSimple at h
  split at h
  next =>
    cases h
    trivial
  next =>
    obtain ⟨names, -, rfl⟩ := map_eq_ok.1 h
    trivial
  next => cases h

theorem proper_of_ofLiteral (h : ofLiteral value = .ok pattern) : pattern.Proper := by
  unfold ofLiteral at h
  split at h
  next =>
    obtain ⟨patterns, -, h⟩ := bind_eq_ok.1 h
    simp only at h
    split at h
    next => cases h
    next hne =>
      cases h
      exact fun hnil => hne (List.isEmpty_iff.2 hnil)
  next => exact proper_of_ofSimple h

/-- There is an item to look for. -/
theorem resolve_ne_nil (hproper : pattern.Proper) {items : List Item}
    (h : pattern.resolve vocabulary = .ok items) : items ≠ [] := by
  cases pattern with
  | sequence patterns =>
    have hall := mapM_eq_ok.1 h
    rintro rfl
    exact hproper (List.forall₂_nil_right_iff.1 hall)
  | name text =>
    obtain ⟨item, -, rfl⟩ := map_eq_ok.1 h
    exact List.cons_ne_nil _ _
  | compound names =>
    obtain ⟨item, -, rfl⟩ := map_eq_ok.1 h
    exact List.cons_ne_nil _ _

end Pattern

namespace Expression

/-- All patterns of an expression have items. -/
def Proper : Expression → Prop
  | .n pattern reference => pattern.Proper ∧ ∀ other ∈ reference, other.Proper
  | _ => True

variable {expression : Expression}

theorem proper_of_countOf {pattern : Literal} {reference : Option Literal}
    (h : countOf pattern reference = .ok expression) : expression.Proper := by
  obtain ⟨counted, hcounted, h⟩ := bind_eq_ok.1 h
  have hproper := Pattern.proper_of_ofLiteral hcounted
  cases reference with
  | none =>
    cases h
    exact ⟨hproper, fun other hother => by cases hother⟩
  | some reference =>
    obtain ⟨other, hother, h⟩ := bind_eq_ok.1 h
    cases h
    refine ⟨hproper, ?_⟩
    rintro _ ⟨⟩
    exact Pattern.proper_of_ofLiteral hother

theorem proper_of_ofLiteral {quantity : Quantity} {value : Literal}
    (h : ofLiteral quantity value = .ok expression) : expression.Proper := by
  cases quantity with
  | v =>
    simp only [ofLiteral, weightOf] at h
    split at h <;> cases h
    trivial
  | w =>
    simp only [ofLiteral, salienceOf] at h
    split at h <;> cases h
    trivial
  | p =>
    simp only [ofLiteral, probabilityOf] at h
    split at h
    next =>
      obtain ⟨stimulus, -, h⟩ := bind_eq_ok.1 h
      split at h <;> cases h
      trivial
    next => cases h
  | n => exact proper_of_countOf (show countOf value none = .ok expression from h)

end Expression

namespace Options

/-- The pattern whose steps are sampled, if there is one, has items. -/
def Proper (options : Options) : Prop :=
  ∀ pattern ∈ options.steps, pattern.Proper

variable {options later : Options}

theorem proper_of_steps_eq (h : options.Proper) (hsteps : later.steps = options.steps) :
    later.Proper := by
  rw [Proper, hsteps]
  exact h

/-- One property is the pattern of the steps, and the others leave it as it is. -/
theorem proper_of_set (hproper : options.Proper) {property : String} {value : Literal}
    (h : options.set property value = .ok later) : later.Proper := by
  unfold set at h
  split at h
  case h_4 =>
    obtain ⟨pattern, hpattern, h⟩ := bind_eq_ok.1 h
    cases h
    rintro _ ⟨⟩
    exact Pattern.proper_of_ofLiteral hpattern
  case h_9 =>
    cases h
    exact hproper
  case h_10 => cases h
  all_goals
    obtain ⟨_, -, h⟩ := bind_eq_ok.1 h
    cases h
    exact proper_of_steps_eq hproper rfl

theorem proper_of_ofDict {dict : Dict} (h : ofDict dict = .ok options) : options.Proper := by
  refine foldlM_induction (P := Proper) (fun pattern hpattern => by cases hpattern) ?_ h
  intro options entry later hproper hentry
  unfold setEntry at hentry
  split at hentry
  · exact proper_of_set hproper hentry
  · cases hentry

end Options

/-! ## Queries -/

/-- A query asks for pairs and elements of a run, for saliences only if they are kept, and counts
items of which there are some. -/
def Query.InRange (run : RunRecord) : Query → Prop
  | .v pair => pair < run.vocabulary.pairCount
  | .w element => run.hasSalience = true ∧ element < run.vocabulary.elementCount
  | .p elements _ => ∀ element ∈ elements, element < run.vocabulary.elementCount
  | .n items reference => items ≠ [] ∧ ∀ others ∈ reference, others ≠ []

namespace Query

theorem lt_of_queryElement {vocabulary : Vocabulary} {name : String} {element : ElementId}
    (h : Pattern.queryElement vocabulary name = .ok element) :
    element < vocabulary.elementCount := by
  unfold Pattern.queryElement at h
  split at h
  next hname =>
    cases h
    exact lt_length_of_idxOf? hname
  next => cases h

theorem lt_of_behaviorOf {vocabulary : Vocabulary} {name : String} {behavior : BehaviorId}
    (h : behaviorOf vocabulary name = .ok behavior) : behavior < vocabulary.behaviorCount := by
  unfold behaviorOf at h
  split at h
  next hname =>
    cases h
    exact lt_length_of_idxOf? hname
  next => cases h

variable {run : RunRecord} {expression : Expression} {query : Query}

theorem inRange_of_ofExpression (hproper : expression.Proper)
    (h : ofExpression run expression = .ok query) : query.InRange run := by
  cases expression with
  | v name done =>
    obtain ⟨element, helement, h⟩ := bind_eq_ok.1 h
    obtain ⟨behavior, hbehavior, h⟩ := bind_eq_ok.1 h
    cases h
    exact run.vocabulary.pair_lt (lt_of_queryElement helement) (lt_of_behaviorOf hbehavior)
  | w name =>
    simp only [ofExpression] at h
    split at h
    next => cases h
    next hsalience =>
      obtain ⟨element, helement, h⟩ := bind_eq_ok.1 h
      cases h
      exact ⟨by simpa using hsalience, lt_of_queryElement helement⟩
  | p stimulus done =>
    obtain ⟨elements, helements, h⟩ := bind_eq_ok.1 h
    obtain ⟨behavior, -, h⟩ := bind_eq_ok.1 h
    cases h
    intro element helement
    obtain ⟨name, -, hname⟩ := exists_of_mem_mapM helements helement
    exact lt_of_queryElement hname
  | n pattern reference =>
    obtain ⟨items, hitems, h⟩ := bind_eq_ok.1 h
    have hne := Pattern.resolve_ne_nil hproper.1 hitems
    cases reference with
    | none =>
      cases h
      exact ⟨hne, fun others hothers => by cases hothers⟩
    | some reference =>
      obtain ⟨others, hothers, h⟩ := bind_eq_ok.1 h
      cases h
      refine ⟨hne, ?_⟩
      rintro _ ⟨⟩
      exact Pattern.resolve_ne_nil (hproper.2 reference rfl) hothers

theorem inRange_of_resolve {options : Options} (hproper : expression.Proper)
    (h : resolve run expression options = .ok query) : query.InRange run := by
  obtain ⟨-, -, h⟩ := bind_eq_ok.1 h
  exact inRange_of_ofExpression hproper h

end Query

end Conditioning
