import Conditioning.Mechanism.Learning
import Conditioning.Proofs.Except

/-!
# Stages of failure

Every function of a script's way from its text to an answer fails at stages of
its own.  `FailsAt` says which ones, as a case of `FailsWith`, which says it of any
kind of error; what can be said of it for any computation comes first, and then
there is one lemma for each function, in the order in which the functions call each
other.

The functions here read settings.  They find fault with what a setting says, not
with how it is written, so all of them fail at validation.
-/

namespace Conditioning

section

variable {α β σ : Type} {P : Error → Prop}

/-- Whether a computation fails with such errors only. -/
def FailsWith (P : Error → Prop) (x : Except Error α) : Prop :=
  ∀ error, x = .error error → P error

/-- Whether a computation fails at some stages only. -/
abbrev FailsAt (stages : List Stage) (x : Except Error α) : Prop :=
  FailsWith (fun error => error.stage ∈ stages) x

namespace FailsWith

theorem ok (a : α) : FailsWith P (.ok a) := nofun

theorem error {e : Error} (h : P e) : FailsWith P (.error e : Except Error α) := by
  rintro _ ⟨⟩
  exact h

theorem mono {Q : Error → Prop} {x : Except Error α} (h : FailsWith P x)
    (hsub : ∀ error, P error → Q error) : FailsWith Q x :=
  fun e he => hsub e (h e he)

theorem bind {x : Except Error α} {f : α → Except Error β} (hx : FailsWith P x)
    (hf : ∀ a, FailsWith P (f a)) : FailsWith P (x >>= f) := by
  intro e he
  rcases bind_eq_error.1 he with h | ⟨a, -, h⟩
  · exact hx e h
  · exact hf a e h

theorem map {x : Except Error α} (hx : FailsWith P x) (f : α → β) : FailsWith P (x.map f) :=
  fun e he => hx e (map_eq_error.1 he)

theorem mapError {ε : Type} (f : ε → Error) (hf : ∀ e, P (f e)) (x : Except ε α) :
    FailsWith P (x.mapError f) := by
  cases x with
  | error e => exact error (hf e)
  | ok a => exact ok a

theorem mapM {f : α → Except Error β} (hf : ∀ a, FailsWith P (f a)) (xs : List α) :
    FailsWith P (xs.mapM f) := by
  intro e he
  obtain ⟨-, x, -, -, -, hx⟩ := mapM_eq_error.1 he
  exact hf x e hx

theorem foldlM {f : σ → α → Except Error σ} (hf : ∀ s a, FailsWith P (f s a)) (s : σ)
    (xs : List α) : FailsWith P (xs.foldlM f s) := by
  induction xs generalizing s with
  | nil => exact ok s
  | cons x xs ih => exact (hf s x).bind fun s => ih s

end FailsWith

end

/-- The stages at which a text fails to become a script. -/
def Stage.ofReading : List Stage := [.parse, .validation]

theorem FailsAt.parse {α : Type} {x : Except Error α} (h : FailsAt [.parse] x) :
    FailsAt Stage.ofReading x :=
  h.mono fun _ he => List.mem_singleton.1 he ▸ .head _

theorem FailsAt.validation {α : Type} {x : Except Error α} (h : FailsAt [.validation] x) :
    FailsAt Stage.ofReading x :=
  h.mono fun _ he => List.mem_singleton.1 he ▸ .tail _ (.head _)

/-! ## Names -/

namespace Vocabulary

theorem failsAt_element (vocabulary : Vocabulary) (name place : String) :
    FailsAt [.validation] (vocabulary.element name place) := by
  unfold element
  split
  · exact .ok _
  · exact .error (.head _)

theorem failsAt_behavior (vocabulary : Vocabulary) (name place : String) :
    FailsAt [.validation] (vocabulary.behavior name place) := by
  unfold behavior
  split
  · exact .ok _
  · exact .error (.head _)

theorem failsAt_checkNames (list : String) (before names : List String) :
    FailsAt [.validation] (checkNames list before names) := by
  fun_induction checkNames list before names with
  | case1 => exact .ok _
  | case2 => exact .error (.head _)
  | case3 => exact .error (.head _)
  | case4 _ _ _ _ _ ih => exact ih

theorem failsAt_ofNames (elements behaviors : List String) :
    FailsAt [.validation] (ofNames elements behaviors) := by
  unfold ofNames
  split
  next => exact .error (.head _)
  next =>
    split
    next => exact .error (.head _)
    next =>
      refine (failsAt_checkNames _ _ _).bind fun _ => (failsAt_checkNames _ _ _).bind fun _ => ?_
      split
      · exact .error (.head _)
      · exact .ok _

end Vocabulary

/-! ## Settings -/

namespace Parameters

variable (p : Parameters)

theorem failsAt_names (parameter : String) : FailsAt [.validation] (p.names parameter) := by
  unfold names
  split
  · exact .error (.head _)
  · split
    · exact .ok _
    · exact .error (.head _)

theorem failsAt_vocabulary : FailsAt [.validation] p.vocabulary :=
  (p.failsAt_names _).bind fun _ => (p.failsAt_names _).bind fun _ =>
    Vocabulary.failsAt_ofNames _ _

theorem failsAt_mechanismName : FailsAt [.validation] p.mechanismName := by
  unfold mechanismName
  split
  · exact .error (.head _)
  · split
    · exact .ok _
    · exact .error (.head _)

theorem failsAt_subjects : FailsAt [.validation] p.subjects := by
  unfold subjects
  split
  · exact .ok _
  · split
    · split
      · exact .ok _
      · exact .error (.head _)
    · exact .error (.head _)

theorem failsAt_beta : FailsAt [.validation] p.beta := by
  unfold beta
  split
  · exact .ok _
  · split
    · exact .ok _
    · exact .error (.head _)

end Parameters

/-! ## Tables -/

namespace Configuration

theorem failsAt_tableNumber (parameter : String) (value : Literal) :
    FailsAt [.validation] (tableNumber parameter value) := by
  unfold tableNumber
  split
  · exact .ok _
  · exact .error (.head _)

theorem failsAt_tableDefault (parameter : String) (dict : Dict) :
    FailsAt [.validation] (tableDefault parameter dict) := by
  unfold tableDefault
  split
  · exact .ok _
  · exact (failsAt_tableNumber _ _).map _

theorem failsAt_expand {slot : Literal → Except Error Nat}
    (hslot : ∀ key, FailsAt [.validation] (slot key)) (setting : Option Literal)
    (parameter : String) (size : Nat) (fallback : Float) (coverage : Coverage) :
    FailsAt [.validation] (expand setting parameter size fallback coverage slot) := by
  have hlisted (dict : Dict) : FailsAt [.validation] (listedCells parameter slot dict) :=
    .mapM (fun entry => (hslot _).bind fun _ => (failsAt_tableNumber _ _).bind fun _ => .ok _) _
  unfold expand
  split
  next => exact .ok _
  next =>
    split
    next => exact .ok _
    next => exact .error (.head _)
    next =>
      refine (failsAt_tableDefault _ _).bind fun _ => (hlisted _).bind fun _ => ?_
      split
      next => exact .ok _
      next => exact .error (.head _)
      next =>
        split
        · exact .ok _
        · exact .error (.head _)

variable (vocabulary : Vocabulary)

theorem failsAt_elementSlot (parameter : String) (key : Literal) :
    FailsAt [.validation] (elementSlot vocabulary parameter key) := by
  unfold elementSlot
  split
  · exact vocabulary.failsAt_element _ _
  · exact .error (.head _)

theorem failsAt_behaviorSlot (parameter : String) (key : Literal) :
    FailsAt [.validation] (behaviorSlot vocabulary parameter key) := by
  unfold behaviorSlot
  split
  · exact vocabulary.failsAt_behavior _ _
  · exact .error (.head _)

theorem failsAt_pairSlot (parameter : String) (key : Literal) :
    FailsAt [.validation] (pairSlot vocabulary parameter key) := by
  unfold pairSlot
  split
  · exact (vocabulary.failsAt_element _ _).bind fun _ =>
      (vocabulary.failsAt_behavior _ _).bind fun _ => .ok _
  · exact .error (.head _)

/-! ## Requirements and elements without learning -/

theorem failsAt_requirementRows (dict : Dict) :
    FailsAt [.validation] (requirementRows vocabulary dict) := by
  refine .mapM (fun entry => (failsAt_behaviorSlot vocabulary _ _).bind fun _ => ?_) _
  split
  · exact .error (.head _)
  · exact (FailsWith.mapM (fun _ => vocabulary.failsAt_element _ _) _).bind fun _ => .ok _

theorem failsAt_invertRequirements (setting : Literal) :
    FailsAt [.validation] (invertRequirements vocabulary setting) := by
  unfold invertRequirements
  split
  · exact .error (.head _)
  · refine (failsAt_requirementRows vocabulary _).bind fun _ => ?_
    simp only
    split
    · exact .error (.head _)
    · exact .ok _

theorem failsAt_possible (p : Parameters) : FailsAt [.validation] (possible vocabulary p) := by
  unfold possible
  split
  · exact .ok _
  · exact failsAt_invertRequirements vocabulary _

theorem failsAt_omitted (p : Parameters) : FailsAt [.validation] (omitted vocabulary p) := by
  unfold omitted
  split
  · exact .ok _
  · unfold markOmitted
    split
    · exact .error (.head _)
    · exact (FailsWith.mapM (fun _ => vocabulary.failsAt_element _ _) _).bind fun _ => .ok _

/-! ## Mechanisms -/

theorem failsAt_checkStartW (p : Parameters) : FailsAt [.validation] (checkStartW p) := by
  unfold checkStartW
  split
  · exact .ok _
  · split
    · exact .ok _
    · exact .error (.head _)

theorem failsAt_ofParameters (p : Parameters) : FailsAt [.validation] (ofParameters p) := by
  refine p.failsAt_vocabulary.bind fun vocabulary => ?_
  have hpair (parameter : String) := failsAt_pairSlot vocabulary parameter
  have helement (parameter : String) := failsAt_elementSlot vocabulary parameter
  have hbehavior (parameter : String) := failsAt_behaviorSlot vocabulary parameter
  refine (failsAt_expand (hpair _) _ _ _ _ _).bind fun _ => ?_
  refine (failsAt_expand (helement _) _ _ _ _ _).bind fun _ => ?_
  refine (failsAt_expand (hbehavior _) _ _ _ _ _).bind fun _ => ?_
  refine (failsAt_expand (hpair _) _ _ _ _ _).bind fun _ => ?_
  refine (failsAt_expand (helement _) _ _ _ _ _).bind fun _ => ?_
  refine (failsAt_checkStartW p).bind fun _ => p.failsAt_beta.bind fun _ => ?_
  refine (failsAt_omitted vocabulary p).bind fun _ => ?_
  exact (failsAt_possible vocabulary p).bind fun _ => .ok _

end Configuration

theorem Mechanism.failsAt_ofParameters (p : Parameters) :
    FailsAt [.validation] (Mechanism.ofParameters p) := by
  have hrule (name : String) : FailsAt [.validation] (Mechanism.findRule name) := by
    unfold findRule
    split
    · exact .ok _
    · exact .error (.head _)
  unfold Mechanism.ofParameters
  simp only
  split
  next => exact .error (.head _)
  next =>
    split
    next => exact .error (.head _)
    next =>
      exact p.failsAt_mechanismName.bind fun _ => (hrule _).bind fun _ =>
        (Configuration.failsAt_ofParameters p).bind fun _ => .ok _

end Conditioning
