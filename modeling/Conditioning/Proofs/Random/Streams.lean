import Conditioning.Proofs.Run.Replay
import Mathlib.Algebra.Ring.Parity
import Mathlib.Data.FinEnum
import Mathlib.Data.Nat.Prime.Basic
import Mathlib.Data.UInt

/-!
# Streams do not merge

A shifted exclusive or can be undone bit by bit, from the end into which nothing
was shifted, and multiplying by an odd number modulo 2^64 can be undone because
the number is coprime to the modulus.  So each step of the generator's word is a
bijection (`Generator.bijective_scramble`), and so is each step of the hash that
makes a seed of a word (`Generator.injective_finalise`).

Zero is the only word that leads to zero.  A generator that was made of a seed
never holds zero, whatever is taken from it (`Generator.state_afterAll_ne_zero`).
A seed that is split off tells the word it was split off from, so two subjects
of a run have the same seed only if the generator of the run came back to a word
that it held before (`Generator.streams_do_not_merge`).
-/

namespace Conditioning

namespace Generator

/-! ## Shifted exclusive ors -/

/-- A right shift leaves the highest bits, which give the ones below them, and so on. -/
theorem xor_shiftRight_inj {n k : Nat} (hk : 0 < k) {x y : BitVec n}
    (h : x ^^^ (x >>> k) = y ^^^ (y >>> k)) : x = y := by
  -- The induction is on the distance from the upper end.
  have hbits (d : Nat) : ∀ i, n - i = d → x.getLsbD i = y.getLsbD i := by
    induction d using Nat.strong_induction_on with
    | h d ih =>
      intro i hi
      by_cases hlt : i < n
      · have hhigher := ih (n - (k + i)) (by omega) (k + i) rfl
        have hbit := congrArg (fun z : BitVec n => z.getLsbD i) h
        simp only [BitVec.getLsbD_xor, BitVec.getLsbD_ushiftRight, hhigher] at hbit
        exact Bool.xor_left_inj.1 hbit
      · simp [BitVec.getLsbD_of_ge, Nat.le_of_not_lt hlt]
  exact BitVec.eq_of_getLsbD_eq fun i _ => hbits (n - i) i rfl

/-- A left shift leaves the lowest bits, which give the ones above them, and so on. -/
theorem xor_shiftLeft_inj {n k : Nat} (hk : 0 < k) {x y : BitVec n}
    (h : x ^^^ (x <<< k) = y ^^^ (y <<< k)) : x = y := by
  have hbits (i : Nat) : x.getLsbD i = y.getLsbD i := by
    induction i using Nat.strong_induction_on with
    | h i ih =>
      have hbit := congrArg (fun z : BitVec n => z.getLsbD i) h
      simp only [BitVec.getLsbD_xor, BitVec.getLsbD_shiftLeft] at hbit
      by_cases hlt : i < k
      · simpa [hlt] using hbit
      · rw [ih (i - k) (by omega)] at hbit
        exact Bool.xor_left_inj.1 hbit
  exact BitVec.eq_of_getLsbD_eq fun i _ => hbits i

theorem injective_xor_shiftRight (k : UInt64) (hk : 0 < (k.toBitVec % 64).toNat) :
    Function.Injective fun x : UInt64 => x ^^^ (x >>> k) := by
  intro x y h
  have hbits := congrArg UInt64.toBitVec h
  simp only [UInt64.toBitVec_xor, UInt64.toBitVec_shiftRight] at hbits
  exact UInt64.toBitVec_injective (xor_shiftRight_inj hk hbits)

theorem injective_xor_shiftLeft (k : UInt64) (hk : 0 < (k.toBitVec % 64).toNat) :
    Function.Injective fun x : UInt64 => x ^^^ (x <<< k) := by
  intro x y h
  have hbits := congrArg UInt64.toBitVec h
  simp only [UInt64.toBitVec_xor, UInt64.toBitVec_shiftLeft] at hbits
  exact UInt64.toBitVec_injective (xor_shiftLeft_inj hk hbits)

/-! ## Odd factors -/

theorem injective_mul_of_odd {m : UInt64} (hm : Odd m.toNat) :
    Function.Injective fun x : UInt64 => x * m := by
  intro x y h
  have hmod : x.toNat * m.toNat ≡ y.toNat * m.toNat [MOD 2 ^ 64] := by
    have hnat := congrArg UInt64.toNat h
    simp only [UInt64.toNat_mul] at hnat
    exact hnat
  have hcoprime : Nat.gcd (2 ^ 64) m.toNat = 1 := (Nat.coprime_two_left.2 hm).pow_left 64
  have heq := Nat.ModEq.cancel_right_of_coprime hcoprime hmod
  refine UInt64.toNat_inj.1 ?_
  rwa [Nat.ModEq, Nat.mod_eq_of_lt x.toNat_lt, Nat.mod_eq_of_lt y.toNat_lt] at heq

/-! ## Words -/

theorem bijective_scramble : Function.Bijective scramble := by
  have hinjective : Function.Injective scramble :=
    (injective_xor_shiftRight 27 (by decide)).comp
      ((injective_xor_shiftLeft 25 (by decide)).comp (injective_xor_shiftRight 12 (by decide)))
  exact Finite.injective_iff_bijective.1 hinjective

theorem scramble_zero : scramble 0 = 0 := rfl

theorem scramble_eq_zero_iff {x : UInt64} : scramble x = 0 ↔ x = 0 :=
  bijective_scramble.injective.eq_iff' scramble_zero

theorem injective_word : Function.Injective fun g : Generator => g.word.1 := by
  intro g g' h
  have hscrambled := injective_mul_of_odd (m := 0x2545F4914F6CDD1D) (by decide) h
  obtain ⟨x⟩ := g
  exact congrArg Generator.mk (bijective_scramble.injective hscrambled)

/-- The word that is handed out is zero only if the generator holds zero. -/
theorem word_eq_zero_iff {g : Generator} : g.word.1 = 0 ↔ g.state = 0 := by
  have hzero : (Generator.mk 0).word.1 = 0 := rfl
  rw [← hzero, injective_word.eq_iff]
  exact ⟨congrArg state, congrArg mk⟩

theorem injective_finalise : Function.Injective finalise :=
  (injective_xor_shiftRight 31 (by decide)).comp
    ((injective_mul_of_odd (m := 0x94D049BB133111EB) (by decide)).comp
      ((injective_xor_shiftRight 27 (by decide)).comp
        ((injective_mul_of_odd (m := 0xBF58476D1CE4E5B9) (by decide)).comp
          (injective_xor_shiftRight 30 (by decide)))))

/-- A seed that is split off tells the generator it was split off from. -/
theorem injective_split : Function.Injective fun g : Generator => g.split.1 := by
  intro g g' h
  exact injective_word ((UInt64.add_left_inj golden).1 (injective_finalise h))

/-! ## Calls -/

/-- What is taken from a generator in one call. -/
inductive Call where
  | word
  | unit
  | split

/-- The generator after a call. -/
def after (g : Generator) : Call → Generator
  | .word => g.word.2
  | .unit => g.unit.2
  | .split => g.split.2

/-- The generator after calls in order. -/
def afterAll (g : Generator) (calls : List Call) : Generator :=
  calls.foldl after g

/-- Whatever is taken, the word takes the same step. -/
theorem state_after (g : Generator) (call : Call) : (g.after call).state = scramble g.state := by
  cases call <;> rfl

/-- A generator that holds another word than zero keeps away from zero. -/
theorem state_afterAll_ne_zero {g : Generator} (hg : g.state ≠ 0) (calls : List Call) :
    (g.afterAll calls).state ≠ 0 := by
  induction calls generalizing g with
  | nil => exact hg
  | cons call calls ih =>
    refine ih (g := g.after call) ?_
    rwa [state_after, Ne, scramble_eq_zero_iff]

theorem state_ofSeed_ne_zero (seed : UInt64) : (ofSeed seed).state ≠ 0 := by
  rw [ofSeed]
  split
  next => decide
  next h => simpa using h

/-! ## Seeds -/

/-- The seed of a place is split off the generator that the seeds before it leave. -/
theorem getElem?_splits {n i : Nat} (h : i < n) (g : Generator) :
    (g.splits n).1[i]? = some (g.splits i).2.split.1 := by
  induction n generalizing i g with
  | zero => cases h
  | succ n ih =>
    rw [splits_succ]
    cases i with
    | zero => rfl
    | succ i =>
      rw [List.getElem?_cons_succ, ih (Nat.lt_of_succ_lt_succ h)]
      rfl

/-- The word of a generator is never zero, its steps and the seeds split off it can be undone, and
so the streams of a run are the same only if its generator came back to where it was. -/
theorem streams_do_not_merge :
    (∀ (seed : UInt64) (calls : List Call),
      ((ofSeed seed).afterAll calls).state ≠ 0 ∧ ((ofSeed seed).afterAll calls).word.1 ≠ 0) ∧
    (∀ (g : Generator) (call : Call), (g.after call).state = scramble g.state) ∧
    Function.Bijective scramble ∧ scramble 0 = 0 ∧
    Function.Injective (fun g : Generator => g.split.1) ∧
    ∀ (run : Run) (g : Generator) (i j : Nat), i < j → j < run.subjects →
      let seeds := (g.splits run.subjects).1
      (seeds[i]? = seeds[j]? ↔ (g.splits j).2 = (g.splits i).2) := by
  refine ⟨fun seed calls => ?_, state_after, bijective_scramble, scramble_zero, injective_split, ?_⟩
  · have hstate := state_afterAll_ne_zero (state_ofSeed_ne_zero seed) calls
    exact ⟨hstate, fun hword => hstate (word_eq_zero_iff.1 hword)⟩
  · intro run g i j hij hj seeds
    have hi : seeds[i]? = some (g.splits i).2.split.1 := getElem?_splits (hij.trans hj) g
    have hj : seeds[j]? = some (g.splits j).2.split.1 := getElem?_splits hj g
    rw [hi, hj, Option.some_inj, injective_split.eq_iff]
    exact eq_comm

/-- The two subjects of the pairings have streams of their own. -/
theorem streams_do_not_merge_pairings :
    0 < 1 ∧ 1 < Run.pairings.subjects ∧
      (Generator.splits 1 ⟨1⟩).2 ≠ (Generator.splits 0 ⟨1⟩).2 ∧
      (Generator.splits 2 ⟨1⟩).1[0]? ≠ (Generator.splits 2 ⟨1⟩).1[1]? := by
  have hmoved : (Generator.splits 1 ⟨1⟩).2 ≠ (Generator.splits 0 ⟨1⟩).2 := by decide
  obtain ⟨-, -, -, -, -, hseeds⟩ := streams_do_not_merge
  have hsubjects : 1 < Run.pairings.subjects := by decide
  exact ⟨by decide, hsubjects, hmoved,
    fun hsame => hmoved ((hseeds Run.pairings ⟨1⟩ 0 1 (by decide) hsubjects).1 hsame)⟩

end Generator

end Conditioning
