import Conditioning.Phase.Step
import Conditioning.Proofs.Double.Parts
import Conditioning.Proofs.Phase.Open
import Conditioning.Proofs.Phase.Written
import Conditioning.Proofs.Random.Unit

/-!
# Edges without a probability

A draw takes the first edge whose running total is above it.  A probability of
zero adds nothing to a running total, so an edge with that probability is never
the first one (`Choice.pos_of_below`).

But the last running total is set to one if it falls short of one by rounding
only, and that takes no account of the last probability.  The draws between the
sum of the probabilities and one, the *gap*, all fall on the last edge.  If its
probability is zero, they are the draws that fall on an edge that should not be
taken, and there are no others (`PhaseText.edgeAt_eq_improbable_iff`).
-/

namespace Conditioning

/-! ## Running totals -/

namespace Choice

theorem below_nil (r : Float) : below [] r = none := rfl

theorem below_cons (total : Float) (totals : List Float) (r : Float) :
    below (total :: totals) r = if r < total then some 0 else (below totals r).map (· + 1) := by
  rw [below, List.findIdx?_cons]
  by_cases h : r < total
  · rw [if_pos h]
    exact if_pos (decide_eq_true h)
  · rw [if_neg h]
    exact if_neg (mt of_decide_eq_true h)

/-- The first running total above a draw is one to which something was added. -/
theorem pos_of_below {acc r : Float} {ps : List Float} {i : Nat} (hacc : 0.0 ≤ acc)
    (hps : ∀ p ∈ ps, 0.0 ≤ p) (hr : ¬r < acc)
    (h : below (runningTotals acc ps) r = some i) : ∃ p, ps[i]? = some p ∧ 0.0 < p := by
  induction ps generalizing acc i with
  | nil => cases h
  | cons p ps ih =>
    obtain ⟨hp, hps⟩ := List.forall_mem_cons.1 hps
    rw [runningTotals, below_cons] at h
    by_cases hpassed : r < acc + p
    · rw [if_pos hpassed] at h
      cases h
      refine ⟨p, rfl, Decidable.byContradiction fun hnot => hr ?_⟩
      exact (Double.lt_add_iff_of_not_pos hacc hp hnot).1 hpassed
    · rw [if_neg hpassed] at h
      obtain ⟨j, hj, rfl⟩ := Option.map_eq_some_iff.1 h
      exact ih (Double.nonneg_add hacc hp) hps hpassed hj

/-- Setting the last total to one gives the draws that were below none of them to the last one,
and changes nothing else. -/
theorem below_closeTotals {init : List Float} {total r : Float} (hone : r < 1.0) :
    below (closeTotals (init ++ [total])) r =
      (below (init ++ [total]) r).or
        (if 1.0 - roundingSlack ≤ total then some init.length else none) := by
  rw [closeTotals_append_singleton]
  induction init with
  | nil =>
    rw [List.nil_append, List.nil_append, below_cons, below_cons, below_nil]
    by_cases hreached : 1.0 - roundingSlack ≤ total
    · rw [if_pos hreached, if_pos hreached, if_pos hone]
      split <;> rfl
    · rw [if_neg hreached, if_neg hreached, Option.or_none]
  | cons first init ih =>
    rw [List.cons_append, List.cons_append, below_cons, below_cons, ih]
    split
    next => rfl
    next =>
      cases below (init ++ [total]) r with
      | some i => rfl
      | none =>
        rw [Option.none_or, List.length_cons]
        split <;> rfl

end Choice

/-! ## Draws -/

namespace Condition

/-- The edge on which a draw falls. -/
def edgeAt (condition : Condition) (r : Float) : Option Edge :=
  (Choice.below condition.totals r).bind fun i => condition.edges[i]?

/-- The edge on which a draw falls by the sums of the probabilities alone. -/
def edgeBySum (condition : Condition) (r : Float) : Option Edge :=
  (Choice.below (runningTotals 0.0 condition.probabilities) r).bind fun i => condition.edges[i]?

/-- The probabilities are one together up to rounding, but the draw is not below their sum. -/
structure InGap (condition : Condition) (r : Float) : Prop where
  almostOne : 1.0 - roundingSlack ≤ condition.rawMass
  edgeBySum_eq_none : condition.edgeBySum r = none

/-- A draw leads to the line of the edge on which it falls. -/
theorem draw_eq (condition : Condition) (g : Generator) :
    (condition.draw g).1 = (condition.edgeAt g.unit.1).map Edge.target := by
  rw [draw, edgeAt, Option.map_bind]
  rfl

section

variable {condition : Condition} {r : Float} {edge : Edge}

/-- The sums decide, and where they do not the last edge is taken if they come close to one. -/
theorem edgeAt_eq (hone : r < 1.0) :
    condition.edgeAt r = (condition.edgeBySum r).or
      (if 1.0 - roundingSlack ≤ condition.rawMass then condition.edges.getLast? else none) := by
  rw [edgeAt, edgeBySum, totals, rawMass]
  rcases List.eq_nil_or_concat' (runningTotals 0.0 condition.probabilities) with
    hnil | ⟨init, total, htotals⟩
  · have hshort : ¬1.0 - roundingSlack ≤ (0.0 : Float) := by decide
    rw [hnil, List.getLast?_nil, Option.getD_none, if_neg hshort]
    rfl
  · have hlength : (init ++ [total]).length = condition.edges.length := by
      rw [← htotals, length_runningTotals, probabilities, List.length_map]
    have hinit : init.length = condition.edges.length - 1 := by
      rw [← hlength, List.length_append, List.length_singleton, Nat.add_sub_cancel]
    rw [htotals, Choice.below_closeTotals hone, List.getLast?_concat, Option.getD_some, hinit]
    cases hbelow : Choice.below (init ++ [total]) r with
    | some i =>
      have hi : i < condition.edges.length :=
        hlength ▸ (List.findIdx?_eq_some_iff_getElem.1 hbelow).1
      rw [Option.some_or, Option.bind_some, List.getElem?_eq_getElem hi]
      rfl
    | none =>
      rw [Option.none_or, Option.bind_none, Option.none_or, List.getLast?_eq_getElem?]
      split <;> rfl

/-- By the sums alone no draw falls on an edge whose probability is zero. -/
theorem pos_of_edgeBySum (hnonneg : ∀ edge ∈ condition.edges, 0.0 ≤ edge.probability)
    (hr : 0.0 ≤ r) (h : condition.edgeBySum r = some edge) : 0.0 < edge.probability := by
  obtain ⟨i, hi, hedge⟩ := Option.bind_eq_some_iff.1 h
  have hps : ∀ p ∈ condition.probabilities, 0.0 ≤ p := by
    intro p hp
    obtain ⟨edge, hedge, rfl⟩ := List.mem_map.1 hp
    exact hnonneg edge hedge
  have hzero : (0.0 : Float) ≤ 0.0 := by decide
  obtain ⟨p, hp, hpos⟩ := Choice.pos_of_below hzero hps (Double.not_lt_of_le hr) hi
  rw [probabilities, List.getElem?_map, hedge] at hp
  exact Option.some.inj hp ▸ hpos

end

end Condition

namespace PhaseText

variable {vocabulary : Vocabulary} {labels : List String} {phase : String} {cs : List Char}
  {condition : Condition}

theorem nonneg_of_condition
    (h : PhaseText.condition vocabulary labels phase cs = .ok condition) :
    ∀ edge ∈ condition.edges, 0.0 ≤ edge.probability := by
  obtain ⟨-, edgesText, items, -, hedges⟩ := condition_eq_ok h
  exact fun edge hedge => (isEdge_of_mem_edges hedges (by simp) edge hedge).2.1

/-- A draw falls on an edge with no probability just if that edge is the last one and the draw is
in the gap. -/
theorem edgeAt_eq_improbable_iff
    (h : PhaseText.condition vocabulary labels phase cs = .ok condition) :
    (∀ g, (condition.draw g).1 = (condition.edgeAt g.unit.1).map Edge.target) ∧
    ∀ r, 0.0 ≤ r → r < 1.0 → ∀ edge,
      condition.edgeAt r = some edge ∧ ¬0.0 < edge.probability ↔
        condition.edges.getLast? = some edge ∧ ¬0.0 < edge.probability ∧ condition.InGap r := by
  refine ⟨condition.draw_eq, fun r hr hone edge => ?_⟩
  have hnonneg := nonneg_of_condition h
  rw [Condition.edgeAt_eq hone]
  constructor
  · rintro ⟨hedge, hnot⟩
    rcases Option.or_eq_some_iff.1 hedge with hsum | ⟨hnone, hlast⟩
    · exact absurd (Condition.pos_of_edgeBySum hnonneg hr hsum) hnot
    · obtain ⟨halmost, hlast⟩ := Option.ite_none_right_eq_some.1 hlast
      exact ⟨hlast, hnot, halmost, hnone⟩
  · rintro ⟨hlast, hnot, halmost, hnone⟩
    rw [hnone, Option.none_or, if_pos halmost]
    exact ⟨hlast, hnot⟩

/-! ## Probabilities that are one, but not as doubles -/

/-- The sum of the first three probabilities is less than one by rounding; the fourth is zero. -/
def gapped : Condition where
  guard := ⟨none, none⟩
  edges := [⟨0.7, 0⟩, ⟨0.2, 1⟩, ⟨0.1, 2⟩, ⟨0.0, 3⟩]

/-- A generator whose first number is the greatest below one. -/
def greatestFirst : Generator := ⟨12165231662994148584⟩

/-- A digit after a point stands for tenths. -/
theorem numberText_tenths {digit : Char} {x : Float} (hdigit : Decimal.isDigit digit = true)
    (hx : Decimal.nearestDouble (Decimal.value ['0', digit]) (-1) = x) :
    NumberText ['0', '.', digit] x := by
  have hzero : Decimal.isDigit '0' = true := rfl
  have hdigits : IsDigits (['0'] ++ [digit]) := .of_all (by simp) (by simp [hdigit, hzero])
  exact numberText_pointed hdigits hx

theorem conditionText_gapped :
    ConditionText trialVocabulary ["A", "B", "C", "D"]
      "A(0.7), B(0.2), C(0.1), D(0.0)".toList gapped := by
  have hseven : NumberText ['0', '.', '7'] 0.7 := numberText_tenths rfl (by
    rw [Decimal.nearestDouble, Decimal.digits]
    rfl)
  have htwo : NumberText ['0', '.', '2'] 0.2 := numberText_tenths rfl (by
    rw [Decimal.nearestDouble, Decimal.digits]
    rfl)
  have hone : NumberText ['0', '.', '1'] 0.1 := numberText_tenths rfl (by
    rw [Decimal.nearestDouble, Decimal.digits]
    rfl)
  have hzero : NumberText ['0', '.', '0'] 0.0 := numberText_tenths rfl (by
    rw [Decimal.nearestDouble]
    rfl)
  have hedge (label : String) (target : Nat) {cs : List Char} {p : Float}
      (htarget : ["A", "B", "C", "D"][target]? = some label) (hp : NumberText cs p)
      (hunit : 0.0 ≤ p ∧ p ≤ 1.0) :
      EdgeText ["A", "B", "C", "D"] (label.toList ++ ([] ++ '(' :: ([] ++ (cs ++ [])) ++ [')']))
        ⟨p, target⟩ :=
    .mk htarget .nil .nil (.number hp) hunit .nil
  have hedges : Text.Separated ',' (EdgeText ["A", "B", "C", "D"]) _ gapped.edges :=
    .more (hedge "A" 0 rfl hseven (by decide +kernel)) .nil .space
      (.more (hedge "B" 1 rfl htwo (by decide +kernel)) .nil .space
        (.more (hedge "C" 2 rfl hone (by decide +kernel)) .nil .space
          (.one (hedge "D" 3 rfl hzero (by decide +kernel)))))
  exact .unguarded (.list hedges (by decide))

theorem condition_gapped :
    PhaseText.condition trialVocabulary ["A", "B", "C", "D"] "gap"
      "A(0.7), B(0.2), C(0.1), D(0.0)".toList = .ok gapped := by
  have hidentifier : ∀ name ∈ trialVocabulary.behaviors ++ ["A", "B", "C", "D"],
      isIdentifier name = true := by decide
  have hname (name : String) (hmem : name ∈ trialVocabulary.behaviors ++ ["A", "B", "C", "D"]) :
      IsName name := isName_of_isIdentifier (hidentifier name hmem)
  exact conditionText_gapped.condition_eq (fun name h => hname name (List.mem_append_left _ h))
    (by decide) (fun name h => hname name (List.mem_append_right _ h)) (by decide)
    (by decide +kernel) "gap"

theorem inGap_gapped : gapped.InGap greatestFirst.unit.1 where
  almostOne := by decide +kernel
  edgeBySum_eq_none := by
    have hbelow : Choice.below (runningTotals 0.0 gapped.probabilities) greatestFirst.unit.1 =
        none := by decide +kernel
    rw [Condition.edgeBySum, hbelow]
    rfl

theorem unit_greatestFirst : 0.0 ≤ greatestFirst.unit.1 ∧ greatestFirst.unit.1 < 1.0 :=
  ⟨by decide +kernel, greatestFirst.unit_lt_one⟩

/-- The draw falls on the fourth edge. -/
theorem edgeAt_eq_improbable_iff_gapped :
    PhaseText.condition trialVocabulary ["A", "B", "C", "D"] "gap"
        "A(0.7), B(0.2), C(0.1), D(0.0)".toList = .ok gapped ∧
      (0.0 ≤ greatestFirst.unit.1 ∧ greatestFirst.unit.1 < 1.0) ∧
      gapped.edgeAt greatestFirst.unit.1 = some ⟨0.0, 3⟩ ∧
      (gapped.draw greatestFirst).1 = some 3 := by
  obtain ⟨hr, hone⟩ := unit_greatestFirst
  obtain ⟨hdraw, hedge⟩ := edgeAt_eq_improbable_iff condition_gapped
  obtain ⟨hfourth, -⟩ := (hedge _ hr hone ⟨0.0, 3⟩).2 ⟨rfl, by decide, inGap_gapped⟩
  refine ⟨condition_gapped, ⟨hr, hone⟩, hfourth, ?_⟩
  rw [hdraw, hfourth]
  rfl

/-- So a draw may fall on an edge whose probability is zero. -/
theorem not_edgeAt_probable :
    ¬∀ (vocabulary : Vocabulary) (labels : List String) (phase : String) (cs : List Char)
      (condition : Condition), PhaseText.condition vocabulary labels phase cs = .ok condition →
      ∀ r, 0.0 ≤ r → r < 1.0 → ∀ edge, condition.edgeAt r = some edge →
        0.0 < edge.probability := by
  intro h
  obtain ⟨hr, hone⟩ := unit_greatestFirst
  have hfourth : gapped.edgeAt greatestFirst.unit.1 = some ⟨0.0, 3⟩ := by
    rw [Condition.edgeAt_eq hone, inGap_gapped.edgeBySum_eq_none, Option.none_or,
      if_pos inGap_gapped.almostOne]
    rfl
  have hpos := h _ _ _ _ _ condition_gapped _ hr hone _ hfourth
  exact absurd hpos (by decide)

end PhaseText

end Conditioning
