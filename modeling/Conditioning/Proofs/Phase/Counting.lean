import Conditioning.Proofs.Calls
import Conditioning.Proofs.Phase.Compiled
import Conditioning.Proofs.Phase.Ending
import Mathlib.Algebra.Ring.Nat

/-!
# What a phase has counted

A phase counts with each stimulus that it shows: the line, the elements, and the
response that its call was given.  So the word of the end key holds the number of
its occurrences in the exchanges so far, as far as a word can (`Phase.Counts`).

If no exchange holds two occurrences, every stimulus is shown while there are too
few, so there are never more than the threshold asks for
(`Phase.Counts.total_le`).  A threshold fits a word, so the count is then the number
itself, and when the phase is over the threshold was met exactly, with the last
stimulus (`Phase.Counts.exact`).

Failed calls show nothing and count nothing, so they may lie between the others.
-/

namespace Conditioning

/-! ## Occurrences -/

namespace EndKey

/-- How often a key occurs in an exchange of a phase. -/
def occurrences (key : EndKey) (exchange : Exchange (Nat × Stimulus)) : Nat :=
  match key with
  | .line i => if exchange.shown.1 = i then 1 else 0
  | .element e => exchange.shown.2.elements.count e
  | .behavior b => if exchange.response = some b then 1 else 0

/-- How often a key occurs in exchanges. -/
def total (key : EndKey) (exchanges : List (Exchange (Nat × Stimulus))) : Nat :=
  (exchanges.map key.occurrences).sum

/-- Whether a line or an element occurs in what a phase shows. -/
def occursIn (key : EndKey) (emission : Nat × Stimulus) : Bool :=
  match key with
  | .line i => emission.1 == i
  | .element e => emission.2.contains e
  | .behavior _ => false

variable (key : EndKey)

@[simp] theorem total_nil : key.total [] = 0 := rfl

@[simp] theorem total_append (past later : List (Exchange (Nat × Stimulus))) :
    key.total (past ++ later) = key.total past + key.total later := by
  simp [total]

@[simp] theorem total_singleton (exchange : Exchange (Nat × Stimulus)) :
    key.total [exchange] = key.occurrences exchange := by
  simp [total]

theorem total_eq_countP {p : Exchange (Nat × Stimulus) → Bool}
    {exchanges : List (Exchange (Nat × Stimulus))}
    (h : ∀ exchange ∈ exchanges, key.occurrences exchange = if p exchange then 1 else 0) :
    key.total exchanges = exchanges.countP p := by
  induction exchanges with
  | nil => rfl
  | cons exchange exchanges ih =>
    obtain ⟨hfirst, hrest⟩ := List.forall_mem_cons.1 h
    have hcons : key.total (exchange :: exchanges) =
        key.occurrences exchange + key.total exchanges := rfl
    rw [hcons, hfirst, ih hrest, List.countP_cons, Nat.add_comm]

/-- A response occurs once in an exchange, or not at all. -/
theorem total_behavior (b : BehaviorId) (past : List (Exchange (Nat × Stimulus))) :
    (EndKey.behavior b).total past = (past.map Exchange.response).count (some b) := by
  rw [List.count, List.countP_map]
  refine total_eq_countP _ fun exchange _ => ?_
  simp [occurrences]

end EndKey

/-! ## Recording -/

theorem iterate_add_one (n : Nat) (word : UInt32) : (· + 1)^[n] word = word + UInt32.ofNat n := by
  induction n with
  | zero => exact (UInt32.add_zero word).symm
  | succ n ih =>
    rw [Function.iterate_succ_apply', ih, UInt32.add_assoc, UInt32.ofNat_add]
    rfl

theorem Tally.getD_foldl_bump (elements : List ElementId) {counts : Array UInt32} {e : Nat}
    (h : e < counts.size) :
    (elements.foldl bump counts).getD e 0 = counts.getD e 0 + UInt32.ofNat (elements.count e) := by
  rw [← iterate_add_one]
  exact getD_foldl_modify (· + 1) elements h 0

theorem Tally.getD_bump {counts : Array UInt32} {j : Nat} (h : j < counts.size) (i : Nat) :
    (bump counts i).getD j 0 = counts.getD j 0 + UInt32.ofNat (if i = j then 1 else 0) := by
  rw [bump, getD_modify _ h]
  split
  · rfl
  · exact (UInt32.add_zero _).symm

/-- Recording an exchange adds the occurrences that are in it. -/
theorem PhaseState.Fits.word_record {state : PhaseState} {phase : Phase} (h : state.Fits phase)
    {key : EndKey} (hkey : key.IsOf phase) (line : Nat) (stimulus : Stimulus)
    (response : Option BehaviorId) :
    (state.tally.record line stimulus response).word key =
      state.tally.word key + UInt32.ofNat (key.occurrences ⟨response, line, stimulus⟩) := by
  cases key with
  | line i =>
    have hlt : i < state.tally.lineWords.size := h.lines ▸ hkey
    exact Tally.getD_bump hlt line
  | element e =>
    have hlt : e < state.tally.elementWords.size := h.elements ▸ hkey
    exact Tally.getD_foldl_bump stimulus.elements hlt
  | behavior b =>
    have hlt : b < state.tally.behaviorWords.size := h.behaviors ▸ hkey
    cases response with
    | none => exact (UInt32.add_zero _).symm
    | some behavior =>
      simp only [Tally.word, Tally.record, Tally.getD_bump hlt, EndKey.occurrences,
        Option.some.injEq]

/-! ## The invariant of the counts -/

namespace Phase

/-- No exchange of a phase holds its end key twice, and a word can hold the count that ends it. -/
structure CountsByOne (phase : Phase) : Prop where
  le_one : ∀ exchange : Exchange (Nat × Stimulus),
    exchange.shown.2 = phase.stimulusAt exchange.shown.1 →
      phase.ending.key.occurrences exchange ≤ 1
  threshold_lt : phase.ending.threshold < UInt32.size

/-- A response is counted at most once in an exchange. -/
theorem countsByOne_of_behavior {phase : Phase} {b : BehaviorId}
    (hkey : phase.ending.key = .behavior b) (hthreshold : phase.ending.threshold < UInt32.size) :
    phase.CountsByOne where
  le_one := fun exchange _ => by
    simp only [hkey, EndKey.occurrences]
    split <;> omega
  threshold_lt := hthreshold

/-- A phase has counted the occurrences of its end key in its exchanges so far, as far as a word can
hold them, and if it counts them one by one, each exchange began while there were too few. -/
structure Counts (phase : Phase) (state : PhaseState)
    (past : List (Exchange (Nat × Stimulus))) : Prop where
  fits : state.Fits phase
  word_eq : state.tally.word phase.ending.key = UInt32.ofNat (phase.ending.key.total past)
  short : phase.CountsByOne → ∀ before last, past = before ++ [last] →
    phase.ending.key.total before < phase.ending.threshold
  /-- Each line was shown with its own stimulus. -/
  stimulus : ∀ exchange ∈ past, exchange.shown.2 = phase.stimulusAt exchange.shown.1

namespace Counts

variable {phase : Phase} {state : PhaseState} {past : List (Exchange (Nat × Stimulus))}

/-- What is counted one by one is never more than the end condition asks for. -/
theorem total_le (h : phase.Counts state past) (hone : phase.CountsByOne) :
    phase.ending.key.total past ≤ phase.ending.threshold := by
  rcases List.eq_nil_or_concat' past with rfl | ⟨before, last, rfl⟩
  · exact Nat.zero_le _
  · have hshort := h.short hone before last rfl
    have hlast := hone.le_one last (h.stimulus last (List.mem_append_right before List.mem_cons_self))
    rw [EndKey.total_append, EndKey.total_singleton]
    omega

/-- So it is the number that is counted, and not only what a word holds of it. -/
theorem get_eq (h : phase.Counts state past) (hone : phase.CountsByOne) :
    state.tally.get phase.ending.key = phase.ending.key.total past := by
  have hlt := Nat.lt_of_le_of_lt (h.total_le hone) hone.threshold_lt
  rw [Tally.get, h.word_eq, UInt32.toNat_ofNat_of_lt' hlt]

theorem start (phase : Phase) : phase.Counts (PhaseState.start phase) [] := by
  refine ⟨.start phase, Tally.word_start phase _, fun _ => ?_, ?_⟩
  · intro before last h
    simp at h
  · intro exchange h
    cases h

/-- Only the counts matter. -/
theorem of_tally_eq (h : phase.Counts state past) {later : PhaseState} (hfits : later.Fits phase)
    (htally : later.tally = state.tally) : phase.Counts later past := by
  refine ⟨hfits, ?_, h.short, h.stimulus⟩
  rw [htally]
  exact h.word_eq

theorem present (h : phase.Counts state past) (hkey : phase.ending.key.IsOf phase)
    (response : Option BehaviorId) (g : Generator) :
    phase.Counts (phase.present state response g).state
      (past ++ (phase.present state response g).exchanges response) := by
  have hfits := h.fits.present response g
  obtain ⟨-, e⟩ | ⟨hnot, e⟩ := phase.present_cases state response g
  · rw [e, Move.exchanges_of_none response rfl, List.append_nil]
    exact h
  · rw [e] at hfits ⊢
    rw [Move.exchanges_of_some response rfl]
    refine ⟨hfits, ?_, ?_, ?_⟩
    · rw [EndKey.total_append, EndKey.total_singleton, UInt32.ofNat_add, ← h.word_eq]
      exact h.fits.word_record hkey _ _ _
    · intro hone before last he
      obtain ⟨rfl, -⟩ := List.append_inj' he rfl
      rw [← h.get_eq hone]
      exact Nat.lt_of_not_le (of_decide_eq_false hnot)
    · intro exchange hexchange
      rcases List.mem_append.1 hexchange with hexchange | hexchange
      · exact h.stimulus exchange hexchange
      · cases List.mem_singleton.1 hexchange
        rfl

/-- A call that fails or finds the phase over counts nothing; any other counts its exchange. -/
theorem next (h : phase.Counts state past) (hkey : phase.ending.key.IsOf phase)
    (response : Option BehaviorId) (g : Generator) :
    phase.Counts (phase.next state response g).state
      (past ++ (phase.next state response g).exchanges response) := by
  obtain ⟨-, e⟩ | ⟨-, g', -, e⟩ | ⟨-, target, g', -, e⟩ := phase.next_cases state response g
  · have hopened : PhaseState.Fits { state with started := true } phase := by
      obtain ⟨hs, hl, he, hb⟩ := h.fits
      exact ⟨hs, hl, he, hb⟩
    rw [e]
    exact (h.of_tally_eq hopened rfl).present hkey response g
  · rw [e, Move.exchanges_of_error response rfl, List.append_nil]
    exact h.of_tally_eq (h.fits.leave response) rfl
  · rw [e]
    exact (h.of_tally_eq (h.fits.moveTo target response) rfl).present hkey response g'

theorem of_calls (hfresh : phase.Fresh state) (hkey : phase.ending.key.IsOf phase)
    (calls : List Call) :
    phase.Counts (stateAfter phase.next state calls) (exchanges phase.next state calls) := by
  rw [hfresh.eq_start]
  exact invariant_of_exchanges phase.next (P := phase.Counts) (.start phase)
    (fun _ _ h response g => h.next hkey response g) calls

/-! ## The end -/

/-- When a phase that counts one by one is over, there are as many occurrences as its end condition
asks for, and the last exchange holds one. -/
theorem exact (h : phase.Counts state past) (hone : phase.CountsByOne)
    (hthreshold : 0 < phase.ending.threshold) (hover : phase.isOver state = true) :
    phase.ending.key.total past = phase.ending.threshold ∧
      ∃ last, past.getLast? = some last ∧ phase.ending.key.occurrences last = 1 := by
  have hreached : phase.ending.threshold ≤ phase.ending.key.total past := by
    rw [← h.get_eq hone]
    exact of_decide_eq_true hover
  refine ⟨Nat.le_antisymm (h.total_le hone) hreached, ?_⟩
  rcases List.eq_nil_or_concat' past with rfl | ⟨before, last, rfl⟩
  · rw [EndKey.total_nil] at hreached
    omega
  · have hshort := h.short hone before last rfl
    have hlast := hone.le_one last (h.stimulus last (List.mem_append_right before List.mem_cons_self))
    rw [EndKey.total_append, EndKey.total_singleton] at hreached
    exact ⟨last, by simp, by omega⟩

end Counts

/-! ## Ending with what is shown -/

/-- The end condition counts a line, or an element that no line shows more than once. -/
def ShowsKeyOnce (phase : Phase) : Prop :=
  match phase.ending.key with
  | .line _ => True
  | .element e => ∀ line ∈ phase.lines, line.stimulus.elements.count e ≤ 1
  | .behavior _ => False

variable {phase : Phase} {state : PhaseState}

theorem count_stimulusAt_le_one {e : ElementId}
    (h : ∀ line ∈ phase.lines, line.stimulus.elements.count e ≤ 1) (i : Nat) :
    (phase.stimulusAt i).elements.count e ≤ 1 := by
  unfold stimulusAt
  split
  next line hline => exact h line (List.mem_of_getElem? hline)
  next => exact Nat.zero_le 1

theorem ShowsKeyOnce.occurrences_eq (h : phase.ShowsKeyOnce)
    {exchange : Exchange (Nat × Stimulus)}
    (hstimulus : exchange.shown.2 = phase.stimulusAt exchange.shown.1) :
    phase.ending.key.occurrences exchange =
      if phase.ending.key.occursIn exchange.shown then 1 else 0 := by
  unfold ShowsKeyOnce at h
  split at h
  next i hkey => simp [hkey, EndKey.occurrences, EndKey.occursIn]
  next e hkey =>
    have hle := count_stimulusAt_le_one h exchange.shown.1
    rw [← hstimulus] at hle
    simp only [hkey, EndKey.occurrences, EndKey.occursIn, Stimulus.contains, List.contains_iff_mem]
    split
    next hmem =>
      have hpos := List.count_pos_iff.2 hmem
      omega
    next hmem => exact List.count_eq_zero.2 hmem
  next => cases h

theorem ShowsKeyOnce.countsByOne (h : phase.ShowsKeyOnce)
    (hthreshold : phase.ending.threshold < UInt32.size) : phase.CountsByOne where
  le_one := fun exchange hstimulus => by
    rw [h.occurrences_eq hstimulus]
    split <;> omega
  threshold_lt := hthreshold

/-- A compiled phase that counts what it shows ends with the last occurrence that its end
condition asks for: when a call shows nothing, there were exactly as many occurrences before, and
the last stimulus was one of them. -/
theorem ends_with_last_occurrence {text : PhaseText} {vocabulary : Vocabulary}
    (hcompile : text.compile vocabulary = .ok phase) (honce : phase.ShowsKeyOnce)
    (hfresh : phase.Fresh state) (calls : List Call) {response : Option BehaviorId} {g : Generator}
    (hnone : (phase.next (stateAfter phase.next state calls) response g).outcome = .ok none) :
    let shown := emissions phase.next state calls
    shown.countP phase.ending.key.occursIn = phase.ending.threshold ∧
      ∃ last, shown.getLast? = some last ∧ phase.ending.key.occursIn last = true := by
  intro shown
  have hkey := PhaseText.key_of_compile hcompile
  have hthreshold := PhaseText.threshold_pos_of_compile hcompile
  -- the call that shows nothing leaves the counts as they are
  have hcounts := (Counts.of_calls hfresh hkey calls).next hkey response g
  rw [Move.exchanges_of_none response hnone, List.append_nil] at hcounts
  have hoccurrences : ∀ exchange ∈ exchanges phase.next state calls,
      phase.ending.key.occurrences exchange =
        if phase.ending.key.occursIn exchange.shown then 1 else 0 :=
    fun exchange hexchange => honce.occurrences_eq (hcounts.stimulus exchange hexchange)
  obtain ⟨htotal, last, hlast, hone⟩ :=
    hcounts.exact (honce.countsByOne (PhaseText.threshold_lt_of_compile hcompile)) hthreshold
      (isOver_of_next_eq_none hnone)
  have hshown : shown = (exchanges phase.next state calls).map Exchange.shown :=
    (map_shown_exchanges phase.next state calls).symm
  refine ⟨?_, last.shown, ?_, ?_⟩
  · rw [hshown, List.countP_map, ← htotal]
    exact (EndKey.total_eq_countP _ hoccurrences).symm
  · rw [hshown, List.getLast?_map, hlast]
    rfl
  · rw [hoccurrences last (List.mem_of_getLast? hlast)] at hone
    by_contra hnot
    simp [hnot] at hone

/-- A subject that presses every time is shown the unconditioned stimulus of `trial` twice, and
then nothing more. -/
theorem ends_with_last_occurrence_trial :
    let phase := PhaseText.trialPhase
    let calls : List Call := ⟨none, ⟨1⟩⟩ :: List.replicate 5 ⟨some 1, ⟨1⟩⟩
    let shown := emissions phase.next (PhaseState.start phase) calls
    PhaseText.trial.compile PhaseText.trialVocabulary = .ok phase ∧ phase.ShowsKeyOnce ∧
      (phase.next (stateAfter phase.next (PhaseState.start phase) calls) (some 1) ⟨1⟩).outcome =
        .ok none ∧
      shown.map Prod.fst = [0, 0, 1, 0, 0, 1] ∧ shown.countP phase.ending.key.occursIn = 2 ∧
      ∃ last, shown.getLast? = some last ∧ phase.ending.key.occursIn last = true := by
  intro phase calls shown
  have honce : phase.ShowsKeyOnce := by
    show ∀ line ∈ PhaseText.trialPhase.lines, line.stimulus.elements.count 1 ≤ 1
    intro line hline
    simp only [PhaseText.trialPhase, List.mem_cons, List.not_mem_nil, or_false] at hline
    rcases hline with rfl | rfl <;> decide
  have hnone : (phase.next (stateAfter phase.next (PhaseState.start phase) calls)
      (some 1) ⟨1⟩).outcome = .ok none := eq_ok_of_toOption_eq_some (by decide +kernel)
  obtain ⟨hcount, hlast⟩ :=
    ends_with_last_occurrence PhaseText.compile_trial honce .start calls hnone
  exact ⟨PhaseText.compile_trial, honce, hnone, by decide +kernel, hcount, hlast⟩

end Phase

end Conditioning
