import Conditioning.Proofs.Mechanism.Update
import Conditioning.Proofs.Run.Reachable
import Conditioning.Proofs.Scalar.Exact
import Mathlib.Algebra.BigOperators.Ring.List
import Mathlib.Data.Nat.Count
import Mathlib.Tactic.Ring

/-!
# A stimulus that is shown again and again

A learner is taken through one step after another (`Mechanism.after`).  Each step learns
about the response of the step before (`Mechanism.previous_after_succ`), so after `n + 1`
steps something was learned about the first `n` responses.

Under the Rescorla-Wagner rule a stimulus that is followed by itself has, for each
behavior, an aim that does not change: the utilities of its elements less the cost of
the behavior.  What is learned about a response moves the sum of its weights with the
elements towards the aim by the sum of their learning rates, and no other weights
(`Mechanism.totalWeight_update`).  In exact numbers the distance from the aim is
therefore multiplied by one factor each time the behavior was the response, and by
nothing at other times (`Mechanism.totalWeight_after`).
-/

namespace Conditioning

/-! ## One step after another -/

namespace Mechanism

variable {α : Type} [Scalar α] (m : Mechanism α)

/-- The learner after some steps, given what each of them shows and draws. -/
def after (l : Learner α) (stimuli : Nat → Stimulus) (draws : Nat → α) : Nat → Learner α
  | 0 => l
  | k + 1 => (m.step (after l stimuli draws k) (stimuli k) (draws k)).2

/-- The response of each step, the first of which is step zero. -/
def responseAt (l : Learner α) (stimuli : Nat → Stimulus) (draws : Nat → α) (k : Nat) :
    BehaviorId :=
  (m.step (m.after l stimuli draws k) (stimuli k) (draws k)).1

variable {m} {l : Learner α} {stimuli : Nat → Stimulus}

theorem previous_after_succ (draws : Nat → α) (k : Nat) :
    (m.after l stimuli draws (k + 1)).previous =
      some (stimuli k, m.responseAt l stimuli draws k) := rfl

theorem Reachable.after (hl : m.Reachable l) (hstimuli : ∀ k, m.Answers (stimuli k))
    (draws : Nat → α) (k : Nat) : m.Reachable (m.after l stimuli draws k) := by
  induction k with
  | zero => exact hl
  | succ k ih => exact ih.step (hstimuli k) (draws k)

end Mechanism

/-! ## Sums over a stimulus -/

variable {K : Type} [Field K] [LinearOrder K] {exp : K → K}

/-- The sum of what each element contributes. -/
def Stimulus.total (stimulus : Stimulus) (of : ElementId → Exact exp) : K :=
  (stimulus.elements.map fun element => (of element).val).sum

namespace Mechanism

section

variable (m : Mechanism (Exact exp)) (stimulus : Stimulus) (behavior : BehaviorId)

/-- The utilities of the elements less the cost of the behavior. -/
def aim : K :=
  stimulus.total m.config.utility.read - (m.config.cost.read behavior).val

/-- The learning rates of the elements with the behavior. -/
def totalRate : K :=
  stimulus.total fun element => m.config.alphaV.read (m.vocabulary.pair element behavior)

/-- The first weights of the elements with the behavior. -/
def totalStart : K :=
  stimulus.total fun element => m.config.startV.read (m.vocabulary.pair element behavior)

/-- The weights of the elements with the behavior. -/
def totalWeight (l : Learner (Exact exp)) : K :=
  stimulus.total fun element => m.weight l element behavior

end

/-! ## Rescorla-Wagner -/

variable {m : Mechanism (Exact exp)} {stimulus : Stimulus} {behavior : BehaviorId}

/-- The error of a stimulus that is followed by itself is the distance from the aim. -/
theorem val_errors_rescorlaWagner (hrule : m.rule = .rescorlaWagner) (stimulus : Stimulus)
    (behavior : BehaviorId) (l : Learner (Exact exp)) :
    (m.errors l stimulus behavior stimulus).1.val =
      m.aim stimulus behavior - m.totalWeight stimulus behavior l := by
  have hutility : (m.sums l stimulus behavior stimulus).utility.val =
      stimulus.total m.config.utility.read := by
    simp [sums, Stimulus.total, Function.comp_def]
  have hvalue : (m.sums l stimulus behavior stimulus).valueBefore.val =
      m.totalWeight stimulus behavior l := by
    simp [sums, totalWeight, Stimulus.total, Function.comp_def]
  have hcost : (m.sums l stimulus behavior stimulus).cost = m.config.cost.read behavior := rfl
  rw [errors, hrule, Rule.errors, Exact.val_sub, Exact.val_sub, hutility, hvalue, hcost, aim]
  exact sub_right_comm _ _ _

/-- What is learned about a response moves the weights with this response towards their aim, and no
others. -/
theorem totalWeight_update (hrule : m.rule = .rescorlaWagner) {l : Learner (Exact exp)}
    (hl : l.Fits m.vocabulary) {done : BehaviorId} (hprevious : l.previous = some (stimulus, done))
    (hnodup : stimulus.elements.Nodup) (hbehavior : behavior < m.vocabulary.behaviorCount) :
    m.totalWeight stimulus behavior (m.update l stimulus done stimulus) =
      if done = behavior then
        m.totalWeight stimulus behavior l + m.totalRate stimulus behavior *
          (m.aim stimulus behavior - m.totalWeight stimulus behavior l)
      else m.totalWeight stimulus behavior l := by
  have hweight (element : ElementId) :=
    weight_update hl hprevious hnodup stimulus element hbehavior
  split
  next hdone =>
    subst hdone
    have hmoved : ∀ element ∈ stimulus.elements,
        (m.weight (m.update l stimulus done stimulus) element done).val =
          (m.weight l element done).val +
            (m.config.alphaV.read (m.vocabulary.pair element done)).val *
              (m.errors l stimulus done stimulus).1.val := by
      intro element helement
      rw [hweight, if_pos ⟨helement, rfl⟩, Exact.val_add, Exact.val_mul]
    rw [← val_errors_rescorlaWagner hrule, totalWeight, Stimulus.total, List.map_congr_left hmoved,
      List.sum_map_add, List.sum_map_mul_right]
    rfl
  next hdone =>
    refine congrArg List.sum (List.map_congr_left fun element _ => ?_)
    show (m.weight _ element behavior).val = _
    rw [hweight, if_neg fun h => hdone h.2.symm]

/-- The weights of a stimulus that is shown again and again come closer to their aim by one factor
for each response that was the behavior; the last response is still to be learned about. -/
theorem totalWeight_after (hrule : m.rule = .rescorlaWagner)
    (hstartV : m.config.startV.size = m.vocabulary.pairCount) (hdeclares : m.config.Declares)
    (hstimulus : m.Answers stimulus) (hnodup : stimulus.elements.Nodup)
    (hlearns : ¬m.Suppressed stimulus) {l : Learner (Exact exp)} (hl : m.Reachable l)
    (draws : Nat → Exact exp) (n : Nat) (hbehavior : behavior < m.vocabulary.behaviorCount) :
    m.totalWeight stimulus behavior (m.after (m.reset l) (fun _ => stimulus) draws (n + 1)) =
      m.aim stimulus behavior +
        (m.totalStart stimulus behavior - m.aim stimulus behavior) *
          (1 - m.totalRate stimulus behavior) ^
            Nat.count (fun k => m.responseAt (m.reset l) (fun _ => stimulus) draws k = behavior)
              n := by
  induction n with
  | zero =>
    have hfirst : m.learn (m.reset l) stimulus = m.reset l := learn_of_unchanged (.inl rfl)
    show m.totalWeight stimulus behavior (m.learn (m.reset l) stimulus) = _
    rw [hfirst, Nat.count_zero, pow_zero, mul_one, add_sub_cancel]
    rfl
  | succ n ih =>
    have hfits := (hl.reset.after (fun _ => hstimulus) draws (n + 1)).fits hstartV hdeclares
    have hprevious : (m.after (m.reset l) (fun _ => stimulus) draws (n + 1)).previous =
        some (stimulus, m.responseAt (m.reset l) (fun _ => stimulus) draws n) :=
      previous_after_succ draws n
    show m.totalWeight stimulus behavior (m.learn (m.after _ _ _ (n + 1)) stimulus) = _
    rw [learn_of_previous hprevious hlearns,
      totalWeight_update hrule hfits hprevious hnodup hbehavior, ih, Nat.count_succ]
    -- the response was the behavior, which gives one more factor, or it was not
    split
    next => ring
    next => ring

/-- Two elements with different utilities and rates, and an exponential that makes every possible
behavior as likely as the others. -/
def compoundTrial : Mechanism (Exact fun _ : ℚ => 1) where
  rule := .rescorlaWagner
  config := { Configuration.default PhaseText.trialVocabulary with
    startV := ⟨#[⟨1⟩, ⟨0⟩, ⟨2⟩, ⟨-1⟩]⟩
    utility := ⟨#[⟨1⟩, ⟨4⟩]⟩
    cost := ⟨#[⟨0⟩, ⟨1⟩]⟩
    alphaV := ⟨#[⟨1 / 2⟩, ⟨1 / 4⟩, ⟨1 / 4⟩, ⟨1 / 3⟩]⟩ }

/-- Draws that choose the first of two behaviors and the second one in turn. -/
def inTurn (k : Nat) : Exact fun _ : ℚ => 1 := ⟨if k % 2 = 0 then 1 / 4 else 3 / 4⟩

/-- In four showings three responses are learned about, two of them the first behavior. -/
theorem totalWeight_after_compoundTrial :
    let l := compoundTrial.reset compoundTrial.start
    let later := compoundTrial.after l (fun _ => ⟨[0, 1]⟩) inTurn 4
    (∀ k < 4, compoundTrial.responseAt l (fun _ => ⟨[0, 1]⟩) inTurn k = k % 2) ∧
      compoundTrial.totalWeight ⟨[0, 1]⟩ 0 later = 5 + (3 - 5) * (1 - 3 / 4) ^ 2 ∧
      compoundTrial.totalWeight ⟨[0, 1]⟩ 1 later = 4 + (-1 - 4) * (1 - 7 / 12) ^ 1 := by
  intro l later
  have hstimulus : compoundTrial.Answers ⟨[0, 1]⟩ := ⟨by decide, by decide⟩
  have hdeclares : compoundTrial.config.Declares :=
    Configuration.declares_default (α := Exact fun _ : ℚ => 1) PhaseText.trialVocabulary
  have hlearns : ¬compoundTrial.Suppressed ⟨[0, 1]⟩ := by
    rw [← suppresses_iff]
    decide
  have h {behavior : BehaviorId} (hbehavior : behavior < compoundTrial.vocabulary.behaviorCount) :=
    totalWeight_after (m := compoundTrial) rfl rfl hdeclares hstimulus (by decide) hlearns .start
      inTurn 3 hbehavior
  have hcount : ∀ behavior < 2, Nat.count (fun k =>
      compoundTrial.responseAt l (fun _ => ⟨[0, 1]⟩) inTurn k = behavior) 3 = 2 - behavior := by
    decide +kernel
  have haim : compoundTrial.aim ⟨[0, 1]⟩ 0 = 5 ∧ compoundTrial.aim ⟨[0, 1]⟩ 1 = 4 := by
    decide +kernel
  have hstart : compoundTrial.totalStart ⟨[0, 1]⟩ 0 = 3 ∧
      compoundTrial.totalStart ⟨[0, 1]⟩ 1 = -1 := by decide +kernel
  have hrate : compoundTrial.totalRate ⟨[0, 1]⟩ 0 = 3 / 4 ∧
      compoundTrial.totalRate ⟨[0, 1]⟩ 1 = 7 / 12 := by decide +kernel
  refine ⟨by decide +kernel, ?_, ?_⟩
  · rw [h (by decide), hcount 0 (by decide), haim.1, hstart.1, hrate.1]
  · rw [h (by decide), hcount 1 (by decide), haim.2, hstart.2, hrate.2]

end Mechanism

end Conditioning
