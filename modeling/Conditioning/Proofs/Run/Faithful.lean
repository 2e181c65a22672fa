import Conditioning.Proofs.Record.Writes
import Conditioning.Proofs.Run.Replay

/-!
# The record tells what was learned

A record of a session tells every weight at every step, and every salience
where saliences are kept (`Record.Tells`), although a step notes only the cells
of the stimulus before and of the stimulus shown.  It tells them at the start,
where all cells are noted.  A step of learning changes no cell that is not
noted after it, and a cell that does not change need not be noted.  At the end
all cells are noted once more, which changes nothing that is told.
-/

namespace Conditioning

namespace Run

/-- A step notes the cells of the stimulus before, and those of the stimulus shown. -/
theorem noteStep_eq (run : Run) (record : Record) (step : Nat) (l later : Learner Float)
    (phase : Nat) (entry : HistoryEntry) :
    run.noteStep record step l.previous later phase entry =
      (({ record with
        v := Point.pushAll step later.v.read
          (run.mechanism.cellsBefore l ++
            run.mechanism.pairCells entry.response entry.stimulus.elements) record.v
        w := if run.mechanism.hasSalience then
            Point.pushAll step later.w.read l.elementsBefore record.w
          else record.w }).noteEntry entry).notePhase phase step := by
  unfold noteStep Mechanism.cellsBefore Learner.elementsBefore
  cases l.previous with
  | none => simp [Record.noteShown_eq, Point.pushAll]
  | some previous => simp [Record.noteShown_eq, Record.noteUpdated_eq, Point.pushAll_append]

end Run

namespace Record

/-- Points for each weight, and for each salience if they are kept, that tell what a learner had
learned at the steps up to `n`. -/
structure Tells (m : Mechanism Float) (live : Nat → Option (Learner Float)) (n : Nat)
    (record : Record) : Prop where
  stepCount_eq : record.stepCount = n + 1
  weights : ∀ element < m.vocabulary.elementCount, ∀ behavior < m.vocabulary.behaviorCount,
    Point.CellFollows record.v (m.vocabulary.pair element behavior) n fun k =>
      (live k).map fun l => m.weight l element behavior
  saliences : m.hasSalience = true → ∀ element < m.vocabulary.elementCount,
    Point.CellFollows record.w element n fun k => (live k).map fun l => l.w.read element

namespace Tells

variable {m : Mechanism Float} {live : Nat → Option (Learner Float)} {n : Nat} {record : Record}
  {l : Learner Float}

/-! ## Reading -/

theorem length_seriesV (h : record.Tells m live n) (pair : Nat) :
    (record.seriesV pair).length = n + 1 :=
  (record.length_seriesV pair).trans h.stepCount_eq

theorem getElem?_seriesV (h : record.Tells m live n) (hend : ∀ k, n < k → live k = none)
    {element behavior : Nat} (helement : element < m.vocabulary.elementCount)
    (hbehavior : behavior < m.vocabulary.behaviorCount) (k : Nat) :
    (record.seriesV (m.vocabulary.pair element behavior))[k]? =
      (live k).map fun l => m.weight l element behavior := by
  rcases Nat.lt_or_ge n k with hlt | hle
  · rw [hend k hlt, List.getElem?_eq_none (h.length_seriesV _ ▸ hlt)]
    rfl
  · obtain ⟨cell, hcell, hfollows⟩ := h.weights element helement behavior hbehavior
    rw [seriesV, h.stepCount_eq, Array.getD_eq_getD_getElem?, hcell, Option.getD_some]
    exact hfollows.getElem?_series hle

theorem seriesW_eq (h : record.Tells m live n) (hsalience : m.hasSalience = true)
    {element : Nat} (helement : element < m.vocabulary.elementCount) :
    record.seriesW element = Point.series (record.w.getD element []) (n + 1) := by
  obtain ⟨cell, hcell, hfollows⟩ := h.saliences hsalience element helement
  have hpoints : record.w.getD element [] = cell := by
    rw [Array.getD_eq_getD_getElem?, hcell, Option.getD_some]
  unfold seriesW
  split
  next hnone => exact absurd (hpoints ▸ hnone) hfollows.ne_nil
  next => rw [h.stepCount_eq]

theorem length_seriesW (h : record.Tells m live n) (hsalience : m.hasSalience = true)
    {element : Nat} (helement : element < m.vocabulary.elementCount) :
    (record.seriesW element).length = n + 1 := by
  rw [h.seriesW_eq hsalience helement, Point.length_series]

theorem getElem?_seriesW (h : record.Tells m live n) (hend : ∀ k, n < k → live k = none)
    (hsalience : m.hasSalience = true) {element : Nat}
    (helement : element < m.vocabulary.elementCount) (k : Nat) :
    (record.seriesW element)[k]? = (live k).map fun l => l.w.read element := by
  rcases Nat.lt_or_ge n k with hlt | hle
  · rw [hend k hlt, List.getElem?_eq_none (h.length_seriesW hsalience helement ▸ hlt)]
    rfl
  · obtain ⟨cell, hcell, hfollows⟩ := h.saliences hsalience element helement
    rw [h.seriesW_eq hsalience helement, Array.getD_eq_getD_getElem?, hcell, Option.getD_some]
    exact hfollows.getElem?_series hle

/-! ## Noting everything -/

theorem start (hlive : live 0 = some l) :
    (((Record.empty m.vocabulary).noteAll m l 0).notePhase 0 0).Tells m live 0 := by
  rw [noteAll_eq]
  refine ⟨size_phases_notePhase _ 0 0, ?_, ?_⟩
  · intro element helement behavior hbehavior
    refine .start ?_ ?_ (by rw [hlive]; rfl)
    · rw [empty, Array.getElem?_replicate, if_pos (m.vocabulary.pair_lt helement hbehavior)]
    · refine List.mem_flatMap.2 ⟨element, List.mem_range.2 helement, ?_⟩
      exact pair_mem_rowCells m hbehavior
  · intro hsalience element helement
    simp only [hsalience, if_true]
    refine .start ?_ (List.mem_range.2 helement) (by rw [hlive]; rfl)
    rw [empty, Array.getElem?_replicate, if_pos helement]

theorem noteAll (h : record.Tells m live n) (hlive : live n = some l) :
    (record.noteAll m l n).Tells m live n := by
  rw [noteAll_eq]
  refine ⟨h.stepCount_eq, ?_, ?_⟩
  · intro element helement behavior hbehavior
    exact (h.weights element helement behavior hbehavior).pushAll (Nat.le_refl n)
      (Nat.le_succ n) (by rw [hlive]; rfl) fun _ => rfl
  · intro hsalience element helement
    simp only [hsalience, if_true]
    exact (h.saliences hsalience element helement).pushAll (Nat.le_refl n) (Nat.le_succ n)
      (by rw [hlive]; rfl) fun _ => rfl

/-! ## Noting a step -/

/-- What is noted after a step of learning covers all that the step changed. -/
theorem noteStep {run : Run} (h : record.Tells run.mechanism live n) (hlive : live n = some l)
    {stimulus : Stimulus} {r : Float}
    (hlater : live (n + 1) = some (run.mechanism.step l stimulus r).2) (phase : Nat)
    (entry : HistoryEntry) :
    (run.noteStep record (n + 1) l.previous (run.mechanism.step l stimulus r).2 phase
      entry).Tells run.mechanism live (n + 1) := by
  have hle : n ≤ n + 1 := Nat.le_succ n
  rw [Run.noteStep_eq]
  refine ⟨?_, ?_, ?_⟩
  · have hsize : record.phases.size = n + 1 := h.stepCount_eq
    simp [stepCount, size_phases_notePhase, noteEntry, hsize]
  · intro element helement behavior hbehavior
    refine (h.weights element helement behavior hbehavior).pushAll hle (Nat.le_refl _)
      (by rw [hlater]; rfl) fun hmem => ?_
    -- a cell that is not noted is none of those that the step may have changed
    have hframe := run.mechanism.read_v_step l stimulus r fun h => hmem (List.mem_append_left _ h)
    rw [hlive, hlater]
    exact congrArg some hframe
  · intro hsalience element helement
    simp only [hsalience, if_true]
    refine (h.saliences hsalience element helement).pushAll hle (Nat.le_refl _)
      (by rw [hlater]; rfl) fun hmem => ?_
    have hframe := run.mechanism.read_w_step l stimulus r hmem
    rw [hlive, hlater]
    exact congrArg some hframe

end Tells

end Record

/-! ## Sessions -/

namespace Run

variable {run : Run} {apparatus : Apparatus} {seed : UInt64}

/-- What a subject has learned after some stimuli, if there are as many. -/
def learnerAfter (run : Run) (apparatus : Apparatus) (seed : UInt64) (k : Nat) :
    Option (Learner Float) :=
  (run.replay apparatus seed k).map Subject.learner

theorem Took.tells {session : Session} (h : run.Took (run.begin apparatus seed) session) :
    session.record.Tells run.mechanism (run.learnerAfter apparatus seed) session.steps := by
  induction h with
  | refl => exact .start rfl
  | @step session later h hstep ih =>
    have hlater : run.learnerAfter apparatus seed (session.steps + 1) =
        some later.apparatus.learner := by
      rw [← steps_of_ongoing hstep, learnerAfter, (h.step hstep).replay_eq]
      rfl
    have hlive : run.learnerAfter apparatus seed session.steps =
        some session.apparatus.learner := by
      rw [learnerAfter, h.replay_eq]
      rfl
    obtain ⟨emission, -, rfl⟩ := ongoing_of_step hstep
    exact ih.noteStep hlive hlater _ _

theorem tells_of_subject {budget : Nat} {record : Record} {after : Apparatus}
    (h : run.subject budget apparatus seed = .ok (record, after)) :
    ∃ n, record.lastStep = some n ∧ (∀ k, (run.replay apparatus seed k).isSome ↔ k ≤ n) ∧
      record.Tells run.mechanism (run.learnerAfter apparatus seed) n := by
  obtain ⟨last, final, htook, hfinished, rfl, -⟩ := exists_took_of_subject h
  obtain ⟨-, rfl⟩ := finished_of_step hfinished
  have hlast := htook.replay_eq
  refine ⟨last.steps, rfl, isSome_replay_iff run hlast (stepSubject_of_finished hfinished), ?_⟩
  have hlive : run.learnerAfter apparatus seed last.steps = some last.apparatus.learner := by
    rw [learnerAfter, hlast]
    rfl
  have htells := htook.tells.noteAll hlive
  exact ⟨htells.stepCount_eq, htells.weights, htells.saliences⟩

/-- The record of a subject tells every weight, and every salience that is kept, as it was after
each stimulus. -/
theorem record_tells_learning {budget : Nat} {record : Record} {after : Apparatus}
    (h : run.subject budget apparatus seed = .ok (record, after)) :
    ∃ n, record.lastStep = some n ∧ (∀ k, (run.replay apparatus seed k).isSome ↔ k ≤ n) ∧
      ∀ element < run.mechanism.vocabulary.elementCount,
        (∀ behavior < run.mechanism.vocabulary.behaviorCount, ∀ k,
          (record.seriesV (run.mechanism.vocabulary.pair element behavior))[k]? =
            (run.replay apparatus seed k).map fun subject =>
              run.mechanism.weight subject.learner element behavior) ∧
        (run.mechanism.hasSalience = true → ∀ k,
          (record.seriesW element)[k]? =
            (run.replay apparatus seed k).map fun subject => subject.learner.w.read element) := by
  obtain ⟨n, hn, hsome, htells⟩ := tells_of_subject h
  have hend : ∀ k, n < k → run.learnerAfter apparatus seed k = none := by
    intro k hk
    have hnone : run.replay apparatus seed k = none := by
      rw [← Option.not_isSome_iff_eq_none, hsome k]
      exact Nat.not_le_of_lt hk
    rw [learnerAfter, hnone]
    rfl
  refine ⟨n, hn, hsome, fun element helement => ⟨?_, ?_⟩⟩
  · intro behavior hbehavior k
    rw [htells.getElem?_seriesV hend helement hbehavior, learnerAfter, Option.map_map]
    rfl
  · intro hsalience k
    rw [htells.getElem?_seriesW hend hsalience helement, learnerAfter, Option.map_map]
    rfl

/-- The pairings take four steps, and the record tells what was learned after each of them: the
weight of a press for the unconditioned stimulus, and the salience of the conditioned one. -/
theorem record_tells_learning_pairings :
    ∃ record after, pairings.subject 5 pairings.setUp 1 = .ok (record, after) ∧
      record.lastStep = some 4 ∧
      (∀ k, (record.seriesV 3)[k]? = (pairings.replay pairings.setUp 1 k).map fun subject =>
          pairings.mechanism.weight subject.learner 1 1) ∧
      ∀ k, (record.seriesW 0)[k]? = (pairings.replay pairings.setUp 1 k).map fun subject =>
          subject.learner.w.read 0 := by
  have hsome : ((pairings.subject 5 pairings.setUp 1).toOption.bind fun x => x.1.lastStep) =
      some 4 := by decide +kernel
  obtain ⟨⟨record, after⟩, hsubject, hlast⟩ := Option.bind_eq_some_iff.1 hsome
  have hok := eq_ok_of_toOption_eq_some hsubject
  obtain ⟨n, hn, -, htells⟩ := record_tells_learning hok
  exact ⟨record, after, hok, hlast, (htells 1 (by decide)).1 1 (by decide),
    (htells 0 (by decide)).2 rfl⟩

end Run

end Conditioning
