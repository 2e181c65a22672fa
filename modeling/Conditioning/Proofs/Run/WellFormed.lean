import Conditioning.Proofs.Run.History
import Conditioning.Proofs.Run.Subjects
import Conditioning.Proofs.Script.Assembly
import Conditioning.Proofs.World.WellFormed

/-!
# Responses that are possible

A run that was built has settings and phases that fit one vocabulary
(`Script.Builds.wellFormed`).  Whatever its subjects have learned, what they are
shown are declared elements, and what they respond is possible for one of the
elements shown (`Run.WellFormed.feasible_of_drew`).
-/

namespace Conditioning

/-- The settings and the phases of a run fit its vocabulary. -/
structure Run.WellFormed (run : Run) : Prop where
  config : run.mechanism.config.WellFormed
  world : run.world.WellFormed run.mechanism.vocabulary

theorem Script.Builds.wellFormed {script : Script} {run : Run} (h : script.Builds run) :
    run.WellFormed := by
  obtain ⟨texts, htexts⟩ := h.phases
  exact ⟨Mechanism.wellFormed_of_ofParameters h.mechanism,
    World.wellFormed_of_compile h.phases_ne_nil htexts⟩

namespace Run

variable {run : Run} {apparatus : Apparatus} {seed : UInt64}

theorem reachable_of_replay (happaratus : run.Reachable apparatus) {k : Nat} {subject : Subject}
    (h : run.replay apparatus seed k = some subject) : run.Reachable subject.apparatus := by
  induction k generalizing subject with
  | zero =>
    cases h
    exact happaratus
  | succ k ih =>
    obtain ⟨before, hbefore, hstep⟩ := Option.bind_eq_some_iff.1 h
    obtain ⟨emission, -, rfl⟩ := Option.map_eq_some_iff.1 hstep
    exact ((ih hbefore).call _ _).learn emission.stimulus _

/-- A response that was drawn is possible for one of the elements shown. -/
theorem WellFormed.feasible_of_drew (h : run.WellFormed) (happaratus : run.Reachable apparatus)
    {k : Nat} {entry : HistoryEntry} (hdrew : run.Drew apparatus seed k entry) :
    ∃ element ∈ entry.stimulus.elements,
      entry.response ∈ run.mechanism.config.response.feasibleFor element := by
  obtain ⟨before, later, emission, hbefore, hshown, -, hstimulus, hresponse⟩ := hdrew
  have hfits := (reachable_of_replay happaratus hbefore).world.fits
  have hdeclared := World.declared_of_next h.world hfits (Move.shown_eq_some.1 hshown)
  have hmem := Mechanism.respond_mem h.config hdeclared later.learner
    (run.nextOf before).generator.unit.1
  rw [← hresponse, ← hstimulus] at hmem
  exact ResponseModel.mem_feasibleBehaviors.1 hmem

/-- Every response that a run records is possible for one of the elements shown. -/
theorem WellFormed.feasible_of_simulate (h : run.WellFormed) {budget : Nat} {g g' : Generator}
    {result : RunRecord} (hsimulate : run.simulate budget g = .ok (result, g')) {subject : Record}
    (hsubject : subject ∈ result.subjects) {entry : HistoryEntry}
    (hentry : entry ∈ subject.history) :
    ∃ element ∈ entry.stimulus.elements,
      entry.response ∈ run.mechanism.config.response.feasibleFor element := by
  rw [simulate_eq] at hsimulate
  obtain ⟨records, hrecords, he⟩ := map_eq_ok.1 hsimulate
  cases he
  obtain ⟨seed, -, halone⟩ := exists_of_mem_mapM hrecords hsubject
  obtain ⟨⟨record, after⟩, hrecord, rfl⟩ := map_eq_ok.1 halone
  obtain ⟨k, hk⟩ := Array.mem_iff_getElem?.1 hentry
  exact h.feasible_of_drew .setUp ((history_of_subject hrecord).2 k entry hk)

end Run

end Conditioning
