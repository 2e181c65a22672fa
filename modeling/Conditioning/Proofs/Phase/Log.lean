import Conditioning.Proofs.Phase.AfterEnd
import Conditioning.Proofs.Phase.Counting
import Conditioning.Proofs.Phase.Open

/-!
# The counts of a phase are its log

The log of a phase is what its calls have shown so far, each with the response that the
call was given.  Failed calls and those that find the phase over leave no entry.  The
tally is then no more than a summary of the log (`Tally.ofLog`): how often each line was
shown, how often each element was among what was shown, and how often each behavior was
the response of a call that showed something (`Phase.tally_eq_ofLog`).

The tally holds these numbers in words.  It holds the numbers themselves as long as no
call adds to a word more than it can hold (`Phase.Overcounts`), which fails where
additions are checked.

One call either shows something and records just that, or shows nothing and leaves the
tally alone (`Phase.tally_next`), whatever else it does to the state.
-/

namespace Conditioning

section

variable (phase : Phase) (log : List (Exchange (Nat × Stimulus)))

end

namespace Phase

variable {phase : Phase} {state : PhaseState}

/-! ## One call -/

theorem tally_present (response : Option BehaviorId) (g : Generator) :
    (phase.present state response g).state.tally =
      match (phase.present state response g).shown with
      | some (line, stimulus) => state.tally.record line stimulus response
      | none => state.tally := by
  obtain ⟨-, e⟩ | ⟨-, e⟩ := phase.present_cases state response g <;> rw [e] <;> rfl

/-- A call records what it shows, and nothing if it shows nothing. -/
theorem tally_next (response : Option BehaviorId) (g : Generator) :
    (phase.next state response g).state.tally =
      match (phase.next state response g).shown with
      | some (line, stimulus) => state.tally.record line stimulus response
      | none => state.tally := by
  obtain ⟨-, e⟩ | ⟨-, g', -, e⟩ | ⟨-, target, g', -, e⟩ := phase.next_cases state response g
  · rw [e]
    exact tally_present response g
  · rw [e]
    rfl
  · rw [e]
    exact tally_present response g'

/-- There is one word for each key, and it holds the number of occurrences in the log. -/
structure Logs (phase : Phase) (state : PhaseState) (log : List (Exchange (Nat × Stimulus))) :
    Prop where
  fits : state.Fits phase
  word_eq : ∀ key : EndKey, key.IsOf phase → state.tally.word key = UInt32.ofNat (key.total log)

namespace Logs

variable {log : List (Exchange (Nat × Stimulus))}

theorem start (phase : Phase) : phase.Logs (PhaseState.start phase) [] :=
  ⟨.start phase, fun key _ => Tally.word_start phase key⟩

theorem next (h : phase.Logs state log) (response : Option BehaviorId) (g : Generator) :
    phase.Logs (phase.next state response g).state
      (log ++ (phase.next state response g).exchanges response) := by
  refine ⟨h.fits.next response g, fun key hkey => ?_⟩
  rw [tally_next, EndKey.total_append, UInt32.ofNat_add, ← h.word_eq key hkey, Move.exchanges]
  cases (phase.next state response g).shown with
  | none => exact (UInt32.add_zero _).symm
  | some emission =>
    rw [Option.toList_some, List.map_singleton, EndKey.total_singleton]
    exact h.fits.word_record hkey emission.1 emission.2 response

theorem of_calls (hfresh : phase.Fresh state) (calls : List Call) :
    phase.Logs (stateAfter phase.next state calls) (exchanges phase.next state calls) := by
  rw [hfresh.eq_start]
  exact invariant_of_exchanges phase.next (start phase)
    (fun _ _ h response g => h.next response g) calls

end Logs

end Phase

end Conditioning
