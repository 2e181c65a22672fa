import Conditioning.Proofs.Calls
import Conditioning.Proofs.Phase.Compiled
import Conditioning.Run

/-!
# Replaying a subject

A subject acts alike whether or not a record is kept of it.  A replay takes a
subject through the world and keeps nothing but what the next step needs: the
apparatus, the subject's stream and its last response (`Subject`).  A session
with its record erased is a subject, and a step of the session is a step of
the replay (`Run.stepSubject_of_ongoing`); so a session after `k` steps is at
the place where the replay is after `k` steps.

The budget of a session only bounds its steps.  A session that ends within it
took some steps and then found the world over (`Run.exists_took_of_proceed`).
-/

namespace Conditioning

/-- A subject in the course of its run, without its record. -/
structure Subject where
  apparatus : Apparatus
  generator : Generator
  response : Option BehaviorId

/-- What the subject has learned. -/
def Subject.learner (subject : Subject) : Learner Float := subject.apparatus.learner

/-- A session without its record. -/
def Session.subject (session : Session) : Subject where
  apparatus := session.apparatus
  generator := session.generator
  response := session.last.map HistoryEntry.response

namespace Run

variable (run : Run)

/-! ## The replay -/

/-- What the world does next with a subject. -/
def nextOf (subject : Subject) : Move WorldState Emission :=
  run.world.next subject.apparatus.world subject.response subject.generator

/-- The subject after it learned from an emission and responded to it. -/
def act (subject : Subject) (emission : Emission) (world : WorldState) (g : Generator) : Subject :=
  let draw := g.unit
  let answer := run.mechanism.step subject.learner emission.stimulus draw.1
  ⟨⟨world, answer.2⟩, draw.2, some answer.1⟩

/-- The subject after one more stimulus, if there is one. -/
def stepSubject (subject : Subject) : Option Subject :=
  let move := run.nextOf subject
  move.shown.map fun emission => run.act subject emission move.state move.generator

/-- The subject after some stimuli, if there are as many. -/
def replay (apparatus : Apparatus) (seed : UInt64) : Nat → Option Subject
  | 0 => some ⟨apparatus, Generator.ofSeed seed, none⟩
  | k + 1 => (replay apparatus seed k).bind run.stepSubject

theorem replay_eq_none_of_le {apparatus : Apparatus} {seed : UInt64} {k n : Nat}
    (h : run.replay apparatus seed k = none) (hk : k ≤ n) :
    run.replay apparatus seed n = none := by
  induction hk with
  | refl => exact h
  | step _ ih => rw [replay, ih, Option.bind_none]

/-- If the world has nothing more to show after `n` stimuli, it shows `n` of them. -/
theorem isSome_replay_iff {apparatus : Apparatus} {seed : UInt64} {n : Nat} {last : Subject}
    (hlast : run.replay apparatus seed n = some last) (hover : run.stepSubject last = none)
    (k : Nat) : (run.replay apparatus seed k).isSome ↔ k ≤ n := by
  constructor
  · intro h
    refine Nat.le_of_not_lt fun hlt => ?_
    have hnone : run.replay apparatus seed (n + 1) = none := by
      rw [replay, hlast, Option.bind_some, hover]
    rw [run.replay_eq_none_of_le hnone hlt] at h
    cases h
  · intro hk
    refine Option.isSome_iff_ne_none.2 fun hnone => ?_
    rw [run.replay_eq_none_of_le hnone hk] at hlast
    cases hlast

/-! ## A step of a session -/

variable {run}

theorem ongoing_of_step {session later : Session}
    (h : run.step session = .ok (.ongoing later)) :
    ∃ emission, (run.nextOf session.subject).outcome = .ok (some emission) ∧
      later = run.respond session emission (run.nextOf session.subject).state
        (run.nextOf session.subject).generator := by
  simp only [step] at h
  split at h
  next => cases h
  next => cases h
  next emission hshown =>
    cases h
    exact ⟨emission, hshown, rfl⟩

theorem finished_of_step {session final : Session}
    (h : run.step session = .ok (.finished final)) :
    (run.nextOf session.subject).outcome = .ok none ∧
      final = leave session (run.nextOf session.subject).state
        (run.nextOf session.subject).generator := by
  simp only [step] at h
  split at h
  next => cases h
  next hover =>
    cases h
    exact ⟨hover, rfl⟩
  next => cases h

theorem stepSubject_of_ongoing {session later : Session}
    (h : run.step session = .ok (.ongoing later)) :
    run.stepSubject session.subject = some later.subject := by
  obtain ⟨emission, hshown, rfl⟩ := ongoing_of_step h
  rw [stepSubject, Move.shown_eq_some.2 hshown]
  rfl

theorem stepSubject_of_finished {session final : Session}
    (h : run.step session = .ok (.finished final)) :
    run.stepSubject session.subject = none := by
  have hover := (finished_of_step h).1
  simp [stepSubject, Move.shown, hover]

theorem steps_of_ongoing {session later : Session}
    (h : run.step session = .ok (.ongoing later)) : later.steps = session.steps + 1 := by
  obtain ⟨emission, -, rfl⟩ := ongoing_of_step h
  rfl

/-! ## The steps of a session -/

/-- Some steps lead from one session to another. -/
inductive Took (run : Run) (first : Session) : Session → Prop where
  | refl : Took run first first
  | step {session later : Session} (h : Took run first session)
      (hstep : run.step session = .ok (.ongoing later)) : Took run first later

/-- A session that ends within its budget took some steps and then found the world over. -/
theorem exists_took_of_proceed {first session final : Session} {budget : Nat}
    (htook : run.Took first session) (h : run.proceed session budget = .ok final) :
    ∃ last, run.Took first last ∧ run.step last = .ok (.finished final) := by
  induction budget generalizing session with
  | zero => cases h
  | succ budget ih =>
    simp only [proceed] at h
    split at h
    next => cases h
    next hstep =>
      cases h
      exact ⟨session, htook, hstep⟩
    next hstep => exact ih (htook.step hstep) h

theorem exists_took_of_subject {budget : Nat} {apparatus after : Apparatus} {seed : UInt64}
    {record : Record} (h : run.subject budget apparatus seed = .ok (record, after)) :
    ∃ last final, run.Took (run.begin apparatus seed) last ∧
      run.step last = .ok (.finished final) ∧
      record = run.conclude final ∧ after = run.reset final.apparatus := by
  simp only [subject] at h
  split at h
  next => cases h
  next final hproceed =>
    cases h
    obtain ⟨last, htook, hfinished⟩ := exists_took_of_proceed .refl hproceed
    exact ⟨last, final, htook, hfinished, rfl, rfl⟩

/-- A session is at the place where the replay is after as many steps. -/
theorem Took.replay_eq {apparatus : Apparatus} {seed : UInt64} {session : Session}
    (h : run.Took (run.begin apparatus seed) session) :
    run.replay apparatus seed session.steps = some session.subject := by
  induction h with
  | refl => rfl
  | step _ hstep ih =>
    rw [steps_of_ongoing hstep, replay, ih, Option.bind_some, stepSubject_of_ongoing hstep]

/-! ## A run to try things on -/

/-- Two pairings of a conditioned and an unconditioned stimulus, whatever the responses.  The
unconditioned stimulus has a utility, so there is something to learn. -/
def pairings : Run where
  label := "pairings"
  world := ⟨[⟨"pairing", PhaseText.trialVocabulary, [
    ⟨"CS", ⟨[0]⟩, [⟨⟨none, none⟩, [⟨1.0, 1⟩]⟩]⟩,
    ⟨"US", ⟨[1]⟩, [⟨⟨none, none⟩, [⟨1.0, 0⟩]⟩]⟩], ⟨.element 1, 2⟩⟩]⟩
  mechanism := ⟨.enquist, { Configuration.default PhaseText.trialVocabulary with
    utility := ⟨#[0.0, 1.0]⟩ }⟩
  subjects := 2

end Run

end Conditioning
