import Conditioning.Phase.Step
import Mathlib.Data.List.Induction

/-!
# Sequences of calls

Phases and worlds are driven alike.  A call is given the response to the last
stimulus and a generator, and leaves a state for the next call, also if it
fails.  Here a driven thing is any function from a state and a call to a move.

What a call shows is counted together with the response that the call was given,
that is, with the response to what was shown before.  The two are an exchange.
-/

namespace Conditioning

/-- What a move shows, if it shows anything. -/
def Move.shown {σ ε : Type} (move : Move σ ε) : Option ε :=
  match move.outcome with
  | .ok shown => shown
  | .error _ => none

theorem Move.shown_eq_some {σ ε : Type} {move : Move σ ε} {emission : ε} :
    move.shown = some emission ↔ move.outcome = .ok (some emission) := by
  unfold shown
  split
  next h => simp [h]
  next h => simp [h]

/-- What one call is given. -/
structure Call where
  /-- The response to the last stimulus, if there was one. -/
  response : Option BehaviorId
  generator : Generator

/-- Something that was shown, and the response that was given just before. -/
structure Exchange (ε : Type) where
  response : Option BehaviorId
  shown : ε

/-- The exchange of a call that was given a response, if the call shows anything. -/
def Move.exchanges {σ ε : Type} (move : Move σ ε) (response : Option BehaviorId) :
    List (Exchange ε) :=
  move.shown.toList.map fun shown => ⟨response, shown⟩

namespace Move

variable {σ ε : Type} {move : Move σ ε} (response : Option BehaviorId)

theorem exchanges_of_none (h : move.outcome = .ok none) : move.exchanges response = [] := by
  simp [exchanges, shown, h]

theorem exchanges_of_error {error : Error} (h : move.outcome = .error error) :
    move.exchanges response = [] := by
  simp [exchanges, shown, h]

theorem exchanges_of_some {emission : ε} (h : move.outcome = .ok (some emission)) :
    move.exchanges response = [⟨response, emission⟩] := by
  simp [exchanges, shown, h]

end Move

section

variable {σ ε : Type} (next : σ → Option BehaviorId → Generator → Move σ ε)

/-- The state that calls lead to, failed ones included. -/
def stateAfter (state : σ) : List Call → σ
  | [] => state
  | call :: calls => stateAfter (next state call.response call.generator).state calls

/-- What calls show, in order; those that fail or show nothing are left out. -/
def emissions (state : σ) : List Call → List ε
  | [] => []
  | call :: calls =>
    let move := next state call.response call.generator
    move.shown.toList ++ emissions move.state calls

/-- The exchanges of calls, in order. -/
def exchanges (state : σ) : List Call → List (Exchange ε)
  | [] => []
  | call :: calls =>
    let move := next state call.response call.generator
    move.exchanges call.response ++ exchanges move.state calls

/-- What calls show, each with the response to it, which the call after it is given; the response
to the last is given apart. -/
def answers (state : σ) (last : Option BehaviorId) : List Call → List (Exchange ε)
  | [] => []
  | call :: calls =>
    let move := next state call.response call.generator
    let answer := (calls.head?.map Call.response).getD last
    move.exchanges answer ++ answers move.state last calls

@[simp] theorem stateAfter_nil (state : σ) : stateAfter next state [] = state := rfl

@[simp] theorem emissions_nil (state : σ) : emissions next state [] = [] := rfl

theorem stateAfter_append (state : σ) (calls calls' : List Call) :
    stateAfter next state (calls ++ calls') = stateAfter next (stateAfter next state calls) calls' := by
  induction calls generalizing state with
  | nil => rfl
  | cons call calls ih => exact ih _

theorem emissions_append (state : σ) (calls calls' : List Call) :
    emissions next state (calls ++ calls') =
      emissions next state calls ++ emissions next (stateAfter next state calls) calls' := by
  induction calls generalizing state with
  | nil => rfl
  | cons call calls ih =>
    simp only [List.cons_append, emissions, stateAfter, ih, List.append_assoc]

@[simp] theorem exchanges_nil (state : σ) : exchanges next state [] = [] := rfl

theorem exchanges_append (state : σ) (calls calls' : List Call) :
    exchanges next state (calls ++ calls') =
      exchanges next state calls ++ exchanges next (stateAfter next state calls) calls' := by
  induction calls generalizing state with
  | nil => rfl
  | cons call calls ih =>
    simp only [List.cons_append, exchanges, stateAfter, ih, List.append_assoc]

theorem map_shown_exchanges (state : σ) (calls : List Call) :
    (exchanges next state calls).map Exchange.shown = emissions next state calls := by
  induction calls generalizing state with
  | nil => rfl
  | cons call calls ih =>
    simp [exchanges, emissions, Move.exchanges, ih, Function.comp_def]

/-- What holds of the state and the emissions at the beginning, and is kept by each call, holds
after any calls. -/
theorem invariant_of_calls {P : σ → List ε → Prop} {state : σ} (hstart : P state [])
    (hcall : ∀ state shown, P state shown → ∀ response g,
      P (next state response g).state (shown ++ (next state response g).shown.toList))
    (calls : List Call) : P (stateAfter next state calls) (emissions next state calls) := by
  induction calls using List.reverseRecOn with
  | nil => exact hstart
  | append_singleton calls call ih =>
    rw [stateAfter_append, emissions_append]
    have h := hcall _ _ ih call.response call.generator
    simpa [stateAfter, emissions] using h

/-- What holds of the state and the exchanges at the beginning, and is kept by each call, holds
after any calls. -/
theorem invariant_of_exchanges {P : σ → List (Exchange ε) → Prop} {state : σ} (hstart : P state [])
    (hcall : ∀ state past, P state past → ∀ response g,
      P (next state response g).state (past ++ (next state response g).exchanges response))
    (calls : List Call) : P (stateAfter next state calls) (exchanges next state calls) := by
  induction calls using List.reverseRecOn with
  | nil => exact hstart
  | append_singleton calls call ih =>
    rw [stateAfter_append, exchanges_append]
    have h := hcall _ _ ih call.response call.generator
    simpa [stateAfter, exchanges] using h

end

end Conditioning
