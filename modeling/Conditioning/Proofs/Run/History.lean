import Conditioning.Proofs.Mechanism.Responses
import Conditioning.Proofs.Run.Faithful

/-!
# The history of a subject

Each step of a session adds one entry to the history: what the world showed, and
the response to it.  The response was drawn after the subject learned from the
stimulus, so it was drawn with what the subject has learned at the end of the
step (`Run.Drew`).
-/

namespace Conditioning

namespace Run

variable {run : Run} {apparatus : Apparatus} {seed : UInt64}

/-- The entry holds what the subject was shown after `k` stimuli, and a response that was drawn
with what it had learned after one more. -/
def Drew (run : Run) (apparatus : Apparatus) (seed : UInt64) (k : Nat) (entry : HistoryEntry) :
    Prop :=
  ∃ before later emission, run.replay apparatus seed k = some before ∧
    (run.nextOf before).shown = some emission ∧
    run.replay apparatus seed (k + 1) = some later ∧
    entry.stimulus = emission.stimulus ∧
    entry.response = run.mechanism.respond later.learner emission.stimulus
      (run.nextOf before).generator.unit.1

/-! ## The entries of a session -/

theorem history_begin (apparatus : Apparatus) (seed : UInt64) :
    (run.begin apparatus seed).record.history = #[] := by
  rw [begin, Record.noteAll_eq]
  rfl

theorem history_respond (session : Session) (emission : Emission) (world : WorldState)
    (g : Generator) :
    let later := run.respond session emission world g
    later.record.history = session.record.history.push
      ⟨emission.stimulus,
        run.mechanism.respond later.apparatus.learner emission.stimulus g.unit.1⟩ := by
  simp only [respond, noteStep_eq, ← Mechanism.step_fst]
  rfl

theorem history_conclude (session : Session) :
    (run.conclude session).history = session.record.history := by
  rw [conclude, Record.noteAll_eq]
  rfl

/-- The history of a session has an entry for each step, and each of them was drawn. -/
theorem Took.history {session : Session} (h : run.Took (run.begin apparatus seed) session) :
    session.record.history.size = session.steps ∧
      ∀ (k : Nat) (entry : HistoryEntry), session.record.history[k]? = some entry →
        run.Drew apparatus seed k entry := by
  induction h with
  | refl =>
    rw [history_begin]
    exact ⟨rfl, fun k entry hentry => by cases hentry⟩
  | @step session later h hstep ih =>
    obtain ⟨hsize, hdrew⟩ := ih
    have hlater := (h.step hstep).replay_eq
    rw [steps_of_ongoing hstep] at hlater
    obtain ⟨emission, hshown, rfl⟩ := ongoing_of_step hstep
    rw [history_respond, Array.size_push, hsize]
    refine ⟨rfl, ?_⟩
    intro k entry hentry
    rw [Array.getElem?_push, hsize] at hentry
    split at hentry
    next hk =>
      subst hk
      cases hentry
      exact ⟨_, _, emission, h.replay_eq, Move.shown_eq_some.2 hshown, hlater, rfl, rfl⟩
    next => exact hdrew k entry hentry

/-- The record of a subject has an entry for each step after the start, and each was drawn. -/
theorem history_of_subject {budget : Nat} {record : Record} {after : Apparatus}
    (h : run.subject budget apparatus seed = .ok (record, after)) :
    record.lastStep = some record.history.size ∧
      ∀ (k : Nat) (entry : HistoryEntry), record.history[k]? = some entry →
        run.Drew apparatus seed k entry := by
  obtain ⟨last, final, htook, hfinished, rfl, -⟩ := exists_took_of_subject h
  obtain ⟨-, rfl⟩ := finished_of_step hfinished
  obtain ⟨hsize, hdrew⟩ := htook.history
  rw [history_conclude]
  exact ⟨congrArg some hsize.symm, hdrew⟩

end Run

end Conditioning
