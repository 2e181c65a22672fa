import Conditioning.Proofs.Query.Labels

/-!
# Matches of a pattern

A history is a row of tokens, a stimulus and the response to it in turn.  A pattern
matches the row from a place on if its items match the tokens there one by one
(`MatchesAt`): an item of elements matches a stimulus that shows them, and nothing
else if the match has to be exact, and an item of a behavior matches this response.
A match belongs to the step of its first token.

A query counts matches.  Added up, its value at a step is the number of matches that
start up to this step, and otherwise the number of those since the value before.  A
pattern for the steps only says at which steps there are values
(`Experiment.evaluate_n_samples`).
-/

namespace Conditioning

/-! ## Places of a row -/

/-- What an item asks of a token. -/
def Item.Matches (exact : Bool) : Item → Token → Prop
  | .elements wanted, .shown stimulus =>
    (∀ element ∈ wanted, element ∈ stimulus.elements) ∧
      (exact = true → ∀ element ∈ stimulus.elements, element ∈ wanted)
  | .behavior wanted, .done response => response = wanted
  | _, _ => False

/-- Items match a row from a place on if they match the tokens there, one after the other. -/
def MatchesAt (exact : Bool) (items : List Item) (row : List Token) (place : Nat) : Prop :=
  ∀ (j : Nat) (item : Item), items[j]? = some item →
    ∃ token, row[place + j]? = some token ∧ item.Matches exact token

/-- The tokens of a history: each stimulus, and then the response to it. -/
def Record.row (record : Record) : List Token :=
  record.history.toList.flatMap fun entry => [.shown entry.stimulus, .done entry.response]

section

variable {exact : Bool} {items : List Item} {row : List Token}

theorem Item.meets_iff {item : Item} {token : Token} :
    item.meets exact token = true ↔ item.Matches exact token := by
  cases item with
  | elements wanted =>
    cases token with
    | shown stimulus => cases exact <;> simp [meets, Matches, Stimulus.contains]
    | done response => simp [meets, Matches]
  | behavior wanted =>
    cases token with
    | shown stimulus => simp [meets, Matches]
    | done response =>
      rw [meets, beq_iff_eq]
      exact eq_comm

theorem matchesAt_cons {item : Item} {place : Nat} :
    MatchesAt exact (item :: items) row place ↔
      (∃ token, row[place]? = some token ∧ item.Matches exact token) ∧
        MatchesAt exact items row (place + 1) := by
  constructor
  · intro h
    refine ⟨h 0 item rfl, fun j other hother => ?_⟩
    rw [Nat.add_right_comm]
    exact h (j + 1) other hother
  · rintro ⟨hitem, hitems⟩ j other hother
    cases j with
    | zero =>
      cases hother
      exact hitem
    | succ j =>
      rw [← Nat.add_assoc, Nat.add_right_comm]
      exact hitems j other hother

theorem meetsFront_drop_iff {place : Nat} :
    meetsFront exact items (row.drop place) = true ↔ MatchesAt exact items row place := by
  induction items generalizing place with
  | nil => exact iff_of_true rfl fun _ _ h => by cases h
  | cons item items ih =>
    rw [matchesAt_cons, ← ih, ← List.drop_drop, List.drop_one]
    cases hdrop : row.drop place with
    | nil =>
      have hnone : row[place]? = none := by
        rw [← List.head?_drop, hdrop]
        rfl
      simp [meetsFront, hnone]
    | cons token rest =>
      have htoken : row[place]? = some token := by
        rw [← List.head?_drop, hdrop]
        rfl
      simp [meetsFront, htoken, Item.meets_iff]

instance (exact : Bool) (items : List Item) (row : List Token) (place : Nat) :
    Decidable (MatchesAt exact items row place) :=
  decidable_of_iff _ meetsFront_drop_iff

/-- The number of matches that start in a step up to some step. -/
def matchesUpTo (exact : Bool) (items : List Item) (row : List Token) (step : Nat) : Nat :=
  (List.range row.length).countP fun place =>
    stepOf place ≤ step ∧ MatchesAt exact items row place

/-- The number of all matches. -/
def totalMatches (exact : Bool) (items : List Item) (row : List Token) : Nat :=
  (List.range row.length).countP fun place => MatchesAt exact items row place

theorem matchesUpTo_mono {step later : Nat} (h : step ≤ later) :
    matchesUpTo exact items row step ≤ matchesUpTo exact items row later := by
  refine List.countP_mono_left fun place _ hplace => ?_
  rw [decide_eq_true_eq] at hplace ⊢
  exact ⟨Nat.le_trans hplace.1 h, hplace.2⟩

theorem matchesUpTo_of_length_le {step : Nat} (h : row.length ≤ 2 * step) :
    matchesUpTo exact items row step = totalMatches exact items row := by
  refine List.countP_congr fun place hplace => ?_
  have hlt := List.mem_range.1 hplace
  have hle : stepOf place ≤ step := by
    rw [stepOf]
    omega
  simp only [hle, true_and]

/-- Up to a step of the row, the places with a match are those that are counted. -/
theorem countP_occurrences {step : Nat} (h : 2 * step ≤ row.length) :
    ((occurrences exact items row).countP fun place => stepOf place ≤ step) =
      matchesUpTo exact items row step := by
  have hlast : ¬stepOf row.length ≤ step := by
    rw [stepOf]
    omega
  rw [occurrences, List.countP_filter, List.range_succ, List.countP_append,
    List.countP_singleton, if_neg (by simp [hlast]), Nat.add_zero]
  refine List.countP_congr fun place _ => ?_
  rw [Bool.and_eq_true, decide_eq_true_eq, decide_eq_true_eq, meetsFront_drop_iff]

end

theorem tokens_eq_row (record : Record) : tokens record.history.toList = record.row := by
  rw [Record.row]
  induction record.history.toList with
  | nil => rfl
  | cons entry entries ih => simp [tokens, ih]

theorem Record.length_row (record : Record) : record.row.length = 2 * record.history.size := by
  rw [← tokens_eq_row, length_tokens, Array.length_toList]

/-! ## Counts that are not added up -/

/-- The differences of neighbouring counts; the first one is the difference to what was before. -/
def differences (before : Nat) : List Nat → List Nat
  | [] => []
  | count :: counts => (count - before) :: differences count counts

/-- Counts that are not added up are the differences of those that are. -/
theorem accumulate_eq_differences (counts : Array Nat) (sampled : Bool) (start total : Nat)
    (steps : List Nat) :
    accumulate counts sampled false start total steps =
      differences total (accumulate counts sampled true start total steps) := by
  induction steps generalizing start total with
  | nil => rfl
  | cons k steps ih => simp [accumulate, differences, ih]

section

variable {run : RunRecord} {record : Record} {options : Options} {steps : List Nat}

theorem countSeries_eq_differences (hcumulative : options.cumulative = false)
    (items : List Item) :
    countSeries record options steps items =
      differences 0 (countSeries record { options with cumulative := true } steps items) := by
  simp only [countSeries, hcumulative]
  exact accumulate_eq_differences ..

/-! ## Counts of all phases -/

/-- Whether a match of the pattern for the steps starts at a step, if there is a pattern. -/
def Options.MatchedAt (options : Options) (vocabulary : Vocabulary) (record : Record)
    (step : Nat) : Prop :=
  ∀ pattern ∈ options.steps, ∃ items, pattern.resolve vocabulary = .ok items ∧
    ∃ place, stepOf place = step ∧ MatchesAt options.exactSteps items record.row place

/-- A query for all phases has a value at each step that the pattern for the steps matches. -/
theorem mem_selectedSteps_of_all (hcount : record.stepCount = record.history.size + 1)
    (hphases : options.phases = []) (h : selectedSteps run record options = .ok steps) {k : Nat} :
    k ∈ steps ↔ k < record.stepCount ∧ options.MatchedAt run.vocabulary record k := by
  rw [mem_selectedSteps h, hphases, phaseSteps_nil, List.mem_range]
  refine and_congr_right fun hk => forall₂_congr fun pattern _ => exists_congr fun items =>
    and_congr_right fun _ => ?_
  simp only [occurrenceSteps, List.mem_map, occurrences, List.mem_filter, List.mem_range,
    meetsFront_drop_iff, tokens_eq_row, record.length_row]
  refine exists_congr fun place => ?_
  constructor
  · rintro ⟨⟨-, hmatches⟩, rfl⟩
    exact ⟨rfl, hmatches⟩
  · rintro ⟨rfl, hmatches⟩
    refine ⟨⟨?_, hmatches⟩, rfl⟩
    rw [stepOf, hcount] at hk
    omega

/-- The counts of a query for all phases, added up: the matches up to each step, whether the steps
are sampled or not. -/
theorem countSeries_eq_matchesUpTo (hcount : record.stepCount = record.history.size + 1)
    (hphases : options.phases = []) (hcumulative : options.cumulative = true)
    (h : selectedSteps run record options = .ok steps) (items : List Item) :
    countSeries record options steps items =
      steps.map (matchesUpTo options.exactN items record.row) := by
  rw [countSeries_eq_map_mem hcumulative h]
  refine List.map_congr_left fun k hk => ?_
  have hlt := lt_stepCount_of_selectedSteps h hk
  have hlength : 2 * k ≤ record.row.length := by
    rw [record.length_row]
    omega
  rw [← countP_occurrences hlength, tokens_eq_row]
  refine List.countP_congr fun place _ => ?_
  simp only [decide_eq_true_eq]
  refine and_iff_left_of_imp fun hle => or_iff_not_imp_left.2 fun hsteps => ?_
  -- without a pattern for the steps, all of them are selected
  rw [mem_selectedSteps_of_all hcount hphases h]
  refine ⟨Nat.lt_of_le_of_lt hle hlt, fun pattern hpattern => ?_⟩
  rw [Option.not_isSome_iff_eq_none.1 hsteps] at hpattern
  cases hpattern

end

namespace Experiment

/-- A query for the number of matches of a pattern, in all phases, has a value at each step that the
pattern for the steps matches, and at every step if there is none.  Added up, it is the number of
matches that start up to the step, and at the last of all steps the number of all matches.
Otherwise it is the difference to what was added up before, which is never more. -/
theorem evaluate_n_samples {experiment : Experiment} {options : Options} {run : RunRecord}
    {record : Record} {i : Nat} {pattern : Pattern} {items : List Item}
    (hrun : experiment.selectRun options = .ok run)
    (hselection : options.selection = .index i) (hrecord : run.subjects[i]? = some record)
    (hcount : record.stepCount = record.history.size + 1) (hphases : options.phases = [])
    (hitems : pattern.resolve run.vocabulary = .ok items)
    (hsteps : ∀ sample ∈ options.steps, ∃ items, sample.resolve run.vocabulary = .ok items) :
    let upTo := matchesUpTo options.exactN items record.row
    ∃ steps counts, selectedSteps run record options = .ok steps ∧
      experiment.evaluate (.n pattern none) options = .ok (.series (counts.map Nat.toFloat)) ∧
      steps.Pairwise (· < ·) ∧
      (∀ k, k ∈ steps ↔ k < record.stepCount ∧ options.MatchedAt run.vocabulary record k) ∧
      (steps.map upTo).Pairwise (· ≤ ·) ∧
      (options.cumulative = true → counts = steps.map upTo) ∧
      (options.cumulative = false → counts = differences 0 (steps.map upTo)) ∧
      (options.steps = none → steps = List.range record.stepCount ∧
        (steps.map upTo).getLast? = some (totalMatches options.exactN items record.row)) := by
  intro upTo
  obtain ⟨steps, hselected⟩ := exists_selectedSteps record hsteps
  have hlabels : ∀ label ∈ options.phases, (run.phase? label).isSome := by simp [hphases]
  have hsorted := pairwise_lt_of_selectedSteps hselected
  refine ⟨steps, countSeries record options steps items, hselected,
    evaluate_n hrun hselection hrecord hlabels hitems hselected, hsorted,
    fun k => mem_selectedSteps_of_all hcount hphases hselected, ?_, ?_, ?_, ?_⟩
  · exact List.pairwise_map.2 (hsorted.imp fun hlt => matchesUpTo_mono (Nat.le_of_lt hlt))
  · intro hcumulative
    exact countSeries_eq_matchesUpTo hcount hphases hcumulative hselected items
  · intro hcumulative
    have hadded := @countSeries_eq_matchesUpTo run record { options with cumulative := true } steps
      hcount hphases rfl hselected items
    rw [countSeries_eq_differences hcumulative, hadded]
  · intro hnone
    have hall := hselected.symm.trans (selectedSteps_of_steps_eq_none hnone)
    rw [hphases, phaseSteps_nil] at hall
    cases hall
    refine ⟨rfl, ?_⟩
    rw [hcount, List.range_succ, List.map_append, List.map_singleton, List.getLast?_concat]
    exact congrArg some (matchesUpTo_of_length_le (Nat.le_of_eq record.length_row))

/-- A record of four steps, of which the third one shows both elements. -/
def compoundRecord : Record where
  v := #[]
  w := #[]
  phases := #[0, 0, 0, 0, 0]
  history := #[⟨⟨[0]⟩, 1⟩, ⟨⟨[0]⟩, 1⟩, ⟨⟨[0, 1]⟩, 0⟩, ⟨⟨[0]⟩, 1⟩]
  lastStep := some 4
  lastEntry := some ⟨⟨[0]⟩, 1⟩

/-- The run of this record. -/
def compoundRun : RunRecord where
  vocabulary := PhaseText.trialVocabulary
  hasSalience := false
  response := (Configuration.default PhaseText.trialVocabulary).response
  phaseLabels := ["trial"]
  subjects := [compoundRecord]

/-- A query for the matches since the value before, at the steps with the conditioned stimulus and
nothing else. -/
def compoundOptions : Options := { Options.default with
  selection := .index 0, steps := some (.name "cs"), cumulative := false, exactSteps := true }

/-- Two presses are followed by the conditioned stimulus.  The matches start at the first and the
second step, and none between the second and the fourth. -/
theorem evaluate_n_samples_compound :
    ∃ steps counts, steps = [1, 2, 4] ∧
      steps.map (matchesUpTo false [.behavior 1, .elements [0]] compoundRecord.row) = [1, 2, 2] ∧
      counts = [1, 1, 0] ∧
      (empty.put "trial" compoundRun).evaluate
        (.n (.sequence [.name "press", .name "cs"]) none) compoundOptions =
          .ok (.series (counts.map Nat.toFloat)) := by
  have hsample : ∀ sample ∈ compoundOptions.steps,
      ∃ items, sample.resolve compoundRun.vocabulary = .ok items := by
    rintro _ ⟨⟩
    exact ⟨[.elements [0]], rfl⟩
  have hitems : Pattern.resolve compoundRun.vocabulary (.sequence [.name "press", .name "cs"]) =
      .ok [.behavior 1, .elements [0]] := rfl
  have hrun : (empty.put "trial" compoundRun).selectRun compoundOptions = .ok compoundRun := rfl
  obtain ⟨steps, counts, hselected, hanswer, -, -, -, -, hcounts, -⟩ :=
    evaluate_n_samples hrun rfl rfl rfl rfl hitems hsample
  have hthree : selectedSteps compoundRun compoundRecord compoundOptions = .ok [1, 2, 4] := by
    rfl
  cases hthree.symm.trans hselected
  have hupTo : [1, 2, 4].map
      (matchesUpTo false [.behavior 1, .elements [0]] compoundRecord.row) = [1, 2, 2] := by
    decide +kernel
  refine ⟨_, counts, rfl, hupTo, ?_, hanswer⟩
  rw [hcounts rfl]
  exact congrArg (differences 0) hupTo

end Experiment

end Conditioning
