import Conditioning.Proofs.Mechanism.Responses

/-!
# The settings that are tables

Five settings of a mechanism are tables, with a cell for each element, each behavior or
each pair (`TableSetting`).  The rest of a configuration does not depend on them, and
nothing depends on how a table is written: settings whose tables are expanded alike, and
which are otherwise the same, stand for the same mechanism, or are refused for the same
reason (`Mechanism.ofParameters_eq_of_expand`).
-/

namespace Conditioning

/-- The settings that are tables. -/
inductive TableSetting where
  | startV
  | utility
  | cost
  | alphaV
  | alphaW
deriving DecidableEq, Repr

namespace TableSetting

/-- What the cells of a table belong to. -/
inductive Shape where
  | element
  | behavior
  | pair
deriving DecidableEq, Repr

def shape : TableSetting → Shape
  | startV | alphaV => .pair
  | utility | alphaW => .element
  | cost => .behavior

def parameter : TableSetting → String
  | startV => Parameter.startV
  | utility => Parameter.utility
  | cost => Parameter.cost
  | alphaV => Parameter.alphaV
  | alphaW => Parameter.alphaW

/-- The names under which a setting is looked for. -/
def names : TableSetting → List String
  | cost => [Parameter.cost, Parameter.shortCost]
  | setting => [setting.parameter]

/-- The value that a setting is given. -/
def given? (p : Parameters) : TableSetting → Option Literal
  | cost => p.cost?
  | setting => p.get? setting.parameter

def Shape.size (vocabulary : Vocabulary) : Shape → Nat
  | .element => vocabulary.elementCount
  | .behavior => vocabulary.behaviorCount
  | .pair => vocabulary.pairCount

/-- The cell that a key names. -/
def Shape.slot (vocabulary : Vocabulary) (parameter : String) :
    Shape → Literal → Except Error Nat
  | .element => Configuration.elementSlot vocabulary parameter
  | .behavior => Configuration.behaviorSlot vocabulary parameter
  | .pair => Configuration.pairSlot vocabulary parameter

/-- What is in every cell if the setting is not given. -/
def fallback : TableSetting → Float
  | alphaV | alphaW => 1.0
  | _ => 0.0

/-- Learning rates need a default. -/
def coverage : TableSetting → Configuration.Coverage
  | alphaV | alphaW => .defaultOnly
  | _ => .defaultOrAll

/-- The number of cells. -/
def size (setting : TableSetting) (vocabulary : Vocabulary) : Nat := setting.shape.size vocabulary

/-- The table that a value of a setting stands for. -/
def expand (setting : TableSetting) (vocabulary : Vocabulary) (given : Option Literal) :
    Except Error (Table Float) :=
  Configuration.expand given setting.parameter (setting.size vocabulary) setting.fallback
    setting.coverage (setting.shape.slot vocabulary setting.parameter)

/-- The table of a configuration. -/
def tableOf (config : Configuration Float) : TableSetting → Table Float
  | startV => config.startV
  | utility => config.utility
  | cost => config.cost
  | alphaV => config.alphaV
  | alphaW => config.alphaW

/-- A configuration has the tables that its settings stand for. -/
theorem expand_of_ofParameters {p : Parameters} {config : Configuration Float}
    (h : Configuration.ofParameters p = .ok config) (setting : TableSetting) :
    setting.expand config.vocabulary (setting.given? p) = .ok (setting.tableOf config) := by
  have hread := Configuration.readFrom_of_ofParameters h
  cases setting with
  | startV => exact hread.startV
  | utility => exact hread.utility
  | cost => exact hread.cost
  | alphaV => exact hread.alphaV
  | alphaW => exact hread.alphaW

theorem given?_congr {p p' : Parameters} {setting : TableSetting}
    (h : ∀ name ∈ setting.names, p.get? name = p'.get? name) :
    setting.given? p = setting.given? p' := by
  cases setting with
  | cost =>
    show (p.get? _).or (p.get? _) = (p'.get? _).or (p'.get? _)
    rw [h Parameter.cost (by decide), h Parameter.shortCost (by decide)]
  | startV | utility | alphaV | alphaW => exact h _ List.mem_cons_self

/-- No name belongs to two settings. -/
theorem not_mem_names {setting other : TableSetting} (h : setting ≠ other) {name : String}
    (hname : name ∈ setting.names) : name ∉ other.names := by
  cases setting with
  | cost =>
    rcases List.mem_pair.1 hname with rfl | rfl
    · cases other <;> first | exact absurd rfl h | decide
    · cases other <;> first | exact absurd rfl h | decide
  | startV | utility | alphaV | alphaW =>
    cases List.mem_singleton.1 hname
    cases other <;> first | exact absurd rfl h | decide

end TableSetting

section

variable {p p' : Parameters}
  (htables : ∀ (setting : TableSetting) (vocabulary : Vocabulary),
    setting.expand vocabulary (setting.given? p) = setting.expand vocabulary (setting.given? p'))
  (hothers : ∀ name, (∀ setting : TableSetting, name ∉ setting.names) → p.get? name = p'.get? name)

include htables hothers

/-- Settings whose tables are the same, and which are otherwise the same, stand for the same
configuration. -/
theorem Configuration.ofParameters_eq_of_expand : ofParameters p = ofParameters p' := by
  have helements := hothers Parameter.elements fun setting => by cases setting <;> decide
  have hbehaviors := hothers Parameter.behaviors fun setting => by cases setting <;> decide
  have hstartW := hothers Parameter.startW fun setting => by cases setting <;> decide
  have hbeta := hothers Parameter.beta fun setting => by cases setting <;> decide
  have homitLearning := hothers Parameter.omitLearning fun setting => by cases setting <;> decide
  have hrequirements := hothers Parameter.requirements fun setting => by cases setting <;> decide
  have hvocabulary : p.vocabulary = p'.vocabulary := by
    simp only [Parameters.vocabulary, Parameters.names, helements, hbehaviors]
  have hcheck : checkStartW p = checkStartW p' := by simp only [checkStartW, hstartW]
  have hbeta : p.beta = p'.beta := by simp only [Parameters.beta, hbeta]
  rw [ofParameters, ofParameters, hvocabulary, hcheck, hbeta]
  refine congrArg _ (funext fun vocabulary => ?_)
  have homitted : omitted vocabulary p = omitted vocabulary p' := by
    simp only [omitted, homitLearning]
  have hpossible : possible vocabulary p = possible vocabulary p' := by
    simp only [possible, hrequirements]
  have hstartV := htables .startV vocabulary
  have hutility := htables .utility vocabulary
  have hcost := htables .cost vocabulary
  have halphaV := htables .alphaV vocabulary
  have halphaW := htables .alphaW vocabulary
  simp only [TableSetting.expand, TableSetting.given?, TableSetting.parameter, TableSetting.size,
    TableSetting.shape, TableSetting.Shape.size, TableSetting.Shape.slot, TableSetting.fallback,
    TableSetting.coverage] at hstartV hutility hcost halphaV halphaW
  rw [hstartV, hutility, hcost, halphaV, halphaW, homitted, hpossible]

/-- They stand for the same mechanism too. -/
theorem Mechanism.ofParameters_eq_of_expand : ofParameters p = ofParameters p' := by
  have helements := hothers Parameter.elements fun setting => by cases setting <;> decide
  have hbehaviors := hothers Parameter.behaviors fun setting => by cases setting <;> decide
  have hmechanism := hothers Parameter.mechanism fun setting => by cases setting <;> decide
  have hcontains {name : String} (h : p.get? name = p'.get? name) :
      p.contains name = p'.contains name := congrArg Option.isSome h
  have hname : p.mechanismName = p'.mechanismName := by
    simp only [Parameters.mechanismName, hmechanism]
  rw [ofParameters, ofParameters, hcontains helements, hcontains hbehaviors, hname,
    Configuration.ofParameters_eq_of_expand htables hothers]

end

end Conditioning
