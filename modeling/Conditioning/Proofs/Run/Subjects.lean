import Conditioning.Proofs.Except
import Conditioning.Proofs.Run.Reachable

/-!
# Subjects do not know of each other

The subjects of a run share one apparatus.  Each of them leaves it as it was set
up, so each goes through the world as if it were the first one, and its own seed
decides what becomes of it.  Taking the subjects through the world one after the
other therefore comes to the same as taking each of them through it alone
(`Run.subjectsFrom_eq_mapM`): it succeeds if each of them succeeds, with their
records in order, and it fails as the first of them that fails.

The seeds of the first subjects do not depend on how many there are, and so
neither do their records.
-/

namespace Conditioning

namespace Generator

theorem take_splits {m n : Nat} (h : m ≤ n) (g : Generator) :
    (g.splits n).1.take m = (g.splits m).1 := by
  induction n generalizing m g with
  | zero =>
    cases Nat.le_zero.1 h
    rfl
  | succ n ih =>
    cases m with
    | zero => rfl
    | succ m =>
      rw [splits_succ, splits_succ, List.take_succ_cons, ih (Nat.le_of_succ_le_succ h)]

end Generator

namespace Run

variable (run : Run) (budget : Nat)

/-! ## Subjects alone -/

/-- The record of a subject that is given an apparatus of its own. -/
def alone (apparatus : Apparatus) (seed : UInt64) : Except Halt Record :=
  (run.subject budget apparatus seed).map Prod.fst

/-- Each subject gets the apparatus as it is set up, whatever those before it did. -/
theorem subjectsFrom_eq_mapM (seeds : List UInt64) :
    run.subjectsFrom budget run.setUp seeds = seeds.mapM (run.alone budget run.setUp) := by
  induction seeds with
  | nil => rfl
  | cons seed seeds ih =>
    rw [List.mapM_cons, ← ih, subjectsFrom, alone]
    cases hsubject : run.subject budget run.setUp seed with
    | error halt => rfl
    | ok result =>
      obtain ⟨record, after⟩ := result
      obtain rfl := after_eq_setUp .setUp hsubject
      cases hrest : run.subjectsFrom budget run.setUp seeds with
      | error halt => simp [hrest, Except.map, bind, Except.bind]
      | ok records => simp [hrest, Except.map, bind, Except.bind, pure, Except.pure]

theorem simulate_eq (g : Generator) :
    run.simulate budget g =
      ((g.splits run.subjects).1.mapM (run.alone budget run.setUp)).map fun records =>
        (run.toRecord records, (g.splits run.subjects).2) := by
  rw [simulate, subjectsFrom_eq_mapM]
  cases (g.splits run.subjects).1.mapM (run.alone budget run.setUp) <;> rfl

/-- Each seed of a run that succeeds has a subject, and its record is in the place of the seed. -/
theorem exists_subject_of_simulate {g g' : Generator} {result : RunRecord}
    (h : run.simulate budget g = .ok (result, g')) {i : Nat} {seed : UInt64}
    (hseed : (g.splits run.subjects).1[i]? = some seed) :
    result = run.toRecord result.subjects ∧
      ∃ record after, result.subjects[i]? = some record ∧
        run.subject budget run.setUp seed = .ok (record, after) := by
  rw [simulate_eq] at h
  obtain ⟨records, hrecords, he⟩ := map_eq_ok.1 h
  cases he
  obtain ⟨record, hrecord, halone⟩ := exists_getElem?_of_mapM hrecords hseed
  obtain ⟨⟨record', after⟩, hsubject, rfl⟩ := map_eq_ok.1 halone
  exact ⟨rfl, record', after, hrecord, hsubject⟩

/-! ## The number of subjects -/

/-- The run with another number of subjects. -/
def withSubjects (n : Nat) : Run := { run with subjects := n }

theorem proceed_withSubjects (n : Nat) (session : Session) :
    (run.withSubjects n).proceed session budget = run.proceed session budget := by
  induction budget generalizing session with
  | zero => rfl
  | succ budget ih =>
    have hstep : (run.withSubjects n).step session = run.step session := rfl
    simp only [proceed, hstep, ih]

theorem alone_withSubjects (n : Nat) (apparatus : Apparatus) (seed : UInt64) :
    (run.withSubjects n).alone budget apparatus seed = run.alone budget apparatus seed := by
  have hbegin : (run.withSubjects n).begin apparatus seed = run.begin apparatus seed := rfl
  rw [alone, subject, proceed_withSubjects, hbegin]
  rfl

/-- A run with fewer subjects has the same first subjects. -/
theorem mapM_alone_withSubjects {n : Nat} (hn : n ≤ run.subjects) {g : Generator}
    {records : List Record}
    (h : (g.splits run.subjects).1.mapM (run.alone budget run.setUp) = .ok records) :
    (g.splits n).1.mapM ((run.withSubjects n).alone budget run.setUp) = .ok (records.take n) := by
  have hall := List.forall₂_take n (mapM_eq_ok.1 h)
  rw [Generator.take_splits hn] at hall
  refine mapM_eq_ok.2 (hall.imp fun seed record hrecord => ?_)
  rw [alone_withSubjects]
  exact hrecord

/-! ## Independence -/

/-- What becomes of a subject is what becomes of it alone, on any apparatus that was reset. -/
theorem subjects_independent {used : Apparatus} (hused : run.Reachable used) (g : Generator) :
    let seeds := (g.splits run.subjects).1
    let alone := run.alone budget (run.reset used)
    ((∃ result, run.simulate budget g = .ok result) ↔
      ∀ seed ∈ seeds, ∃ record, alone seed = .ok record) ∧
    (∀ record g', run.simulate budget g = .ok (record, g') →
      List.Forall₂ (fun seed subject => alone seed = .ok subject) seeds record.subjects) ∧
    (∀ halt, run.simulate budget g = .error halt →
      ∃ before seed later, seeds = before ++ seed :: later ∧
        (∀ earlier ∈ before, ∃ record, alone earlier = .ok record) ∧ alone seed = .error halt) ∧
    (∀ record g', run.simulate budget g = .ok (record, g') → ∀ n ≤ run.subjects,
      ∃ fewer g'', (run.withSubjects n).simulate budget g = .ok (fewer, g'') ∧
        fewer.subjects = record.subjects.take n) := by
  intro seeds alone
  have halone : alone = run.alone budget run.setUp := by
    simp only [alone, hused.reset_eq_setUp]
  have hsimulate : run.simulate budget g = (seeds.mapM alone).map fun records =>
      (run.toRecord records, (g.splits run.subjects).2) := by
    rw [halone]
    exact run.simulate_eq budget g
  refine ⟨?_, ?_, ?_, ?_⟩
  · rw [← exists_mapM_eq_ok_iff, hsimulate]
    constructor
    · rintro ⟨result, h⟩
      obtain ⟨records, hrecords, -⟩ := map_eq_ok.1 h
      exact ⟨records, hrecords⟩
    · rintro ⟨records, hrecords⟩
      exact ⟨_, map_eq_ok.2 ⟨records, hrecords, rfl⟩⟩
  · intro record g' h
    obtain ⟨records, hrecords, he⟩ := map_eq_ok.1 (hsimulate.symm.trans h)
    cases he
    exact mapM_eq_ok.1 hrecords
  · intro halt h
    exact mapM_eq_error.1 (map_eq_error.1 (hsimulate.symm.trans h))
  · intro record g' h n hn
    obtain ⟨records, hrecords, he⟩ := map_eq_ok.1 (hsimulate.symm.trans h)
    cases he
    rw [halone] at hrecords
    refine ⟨_, _, (simulate_eq _ budget g).trans (map_eq_ok.2 ⟨_, ?_, rfl⟩), rfl⟩
    exact run.mapM_alone_withSubjects budget hn hrecords

/-- The apparatus of the pairings after a stimulus and a response. -/
def pairingsUsed : Apparatus where
  world := (pairings.world.next pairings.setUp.world none ⟨1⟩).state
  learner := (pairings.mechanism.step pairings.setUp.learner ⟨[0]⟩ 0.5).2

/-- Both subjects of the pairings do as they would on that apparatus after a reset. -/
theorem subjects_independent_pairings :
    pairings.Reachable pairingsUsed ∧
      ∃ record g', pairings.simulate 5 ⟨1⟩ = .ok (record, g') ∧ record.subjects.length = 2 ∧
        List.Forall₂ (fun seed subject =>
            pairings.alone 5 (pairings.reset pairingsUsed) seed = .ok subject)
          (Generator.splits 2 ⟨1⟩).1 record.subjects := by
  have hused : pairings.Reachable pairingsUsed :=
    (Reachable.setUp.call none ⟨1⟩).learn ⟨[0]⟩ 0.5
  have hlength : ((pairings.simulate 5 ⟨1⟩).toOption.map fun x => x.1.subjects.length) =
      some 2 := by decide +kernel
  obtain ⟨⟨record, g'⟩, hsimulate, htwo⟩ := Option.map_eq_some_iff.1 hlength
  have hok := eq_ok_of_toOption_eq_some hsimulate
  obtain ⟨-, hsubjects, -⟩ := pairings.subjects_independent 5 hused ⟨1⟩
  exact ⟨hused, record, g', hok, htwo, hsubjects record g' hok⟩

end Run

end Conditioning
