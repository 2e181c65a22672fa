import Conditioning.Proofs.Mechanism.Frame
import Conditioning.Proofs.Run.Replay
import Conditioning.Proofs.World.Reachable

/-!
# What a subject does to the apparatus

The subjects of a run change the apparatus in two ways: the world is called, and
the learner takes a step.  Neither changes the shape of the apparatus, so a
reset leads back to the apparatus as it was set up, from every state that
subjects and resets lead to (`Run.Reachable.reset_eq_setUp`).  A subject that is
through therefore leaves nothing behind (`Run.after_eq_setUp`).
-/

namespace Conditioning

theorem Mechanism.reset_eq_start {α : Type} [Scalar α] (m : Mechanism α) {l : Learner α}
    (h : l.w.size = m.vocabulary.elementCount) : m.reset l = m.start := by
  have hw : l.w.refill Scalar.zero = Table.fill m.vocabulary.elementCount (Scalar.zero : α) := by
    rw [Table.refill, Array.map_const', Table.fill, ← h]
    rfl
  rw [reset, start, hw]

namespace Run

/-- The states that calls of the world, steps of the learner and resets lead to. -/
inductive Reachable (run : Run) : Apparatus → Prop where
  | setUp : Reachable run run.setUp
  | call {apparatus : Apparatus} (h : Reachable run apparatus) (response : Option BehaviorId)
      (g : Generator) :
      Reachable run ⟨(run.world.next apparatus.world response g).state, apparatus.learner⟩
  | learn {apparatus : Apparatus} (h : Reachable run apparatus) (stimulus : Stimulus) (r : Float) :
      Reachable run ⟨apparatus.world, (run.mechanism.step apparatus.learner stimulus r).2⟩
  | reset {apparatus : Apparatus} (h : Reachable run apparatus) :
      Reachable run (run.reset apparatus)

namespace Reachable

variable {run : Run} {apparatus : Apparatus}

theorem world (h : run.Reachable apparatus) : run.world.Reachable apparatus.world := by
  induction h with
  | setUp => exact .start
  | call _ response g ih => exact ih.next response g
  | learn _ stimulus r ih => exact ih
  | reset _ ih => exact ih.reset

theorem size_w (h : run.Reachable apparatus) :
    apparatus.learner.w.size = run.mechanism.vocabulary.elementCount := by
  induction h with
  | setUp => exact Table.size_fill _ _
  | call _ response g ih => exact ih
  | learn _ stimulus r ih =>
    rw [← ih]
    exact run.mechanism.size_w_step _ stimulus r
  | reset _ ih =>
    rw [← ih]
    exact Table.size_refill _ _

/-- A reset forgets everything, whatever the subjects did before. -/
theorem reset_eq_setUp (h : run.Reachable apparatus) : run.reset apparatus = run.setUp := by
  rw [Run.reset, h.world.reset_eq_start, run.mechanism.reset_eq_start h.size_w]
  rfl

end Reachable

variable {run : Run}

/-! ## Subjects -/

theorem Took.reachable {first session : Session} (hfirst : run.Reachable first.apparatus)
    (h : run.Took first session) : run.Reachable session.apparatus := by
  induction h with
  | refl => exact hfirst
  | step _ hstep ih =>
    obtain ⟨emission, -, rfl⟩ := ongoing_of_step hstep
    exact (ih.call _ _).learn emission.stimulus _

/-- A subject that is through leaves the apparatus as it was set up. -/
theorem after_eq_setUp {budget : Nat} {apparatus after : Apparatus} {seed : UInt64}
    {record : Record} (happaratus : run.Reachable apparatus)
    (h : run.subject budget apparatus seed = .ok (record, after)) : after = run.setUp := by
  obtain ⟨last, final, htook, hfinished, -, rfl⟩ := exists_took_of_subject h
  obtain ⟨-, rfl⟩ := finished_of_step hfinished
  exact ((htook.reachable happaratus).call _ _).reset_eq_setUp

end Run

end Conditioning
