import Conditioning.Proofs.Except
import Conditioning.Vocabulary
import Mathlib.Data.List.Nodup
import Mathlib.Data.Set.Function
import Mathlib.Order.Interval.Set.Defs

/-!
# Declared names

Two lists of names can be declared just if both have names, none of them empty, and no
name is declared twice or as both an element and a behavior
(`Vocabulary.ofNames_eq_ok_iff`).  So a name stands for one element or one behavior,
and is found at its place (`Vocabulary.element_eq_ok_iff`), and a number of a pair
stands for one pair (`Vocabulary.bijOn_pair`).
-/

namespace Conditioning

/-! ## Places of names -/

theorem lt_length_of_idxOf? {names : List String} {name : String} {i : Nat}
    (h : names.idxOf? name = some i) : i < names.length := by
  rw [List.idxOf?] at h
  exact (List.findIdx?_eq_some_iff_getElem.1 h).1

/-- In a list without repetitions a name is found at its place. -/
theorem idxOf?_eq_some {names : List String} (hnodup : names.Nodup) {i : Nat} {name : String}
    (h : names[i]? = some name) : names.idxOf? name = some i := by
  obtain ⟨hi, rfl⟩ := List.getElem?_eq_some_iff.1 h
  rw [List.idxOf?, List.findIdx?_eq_some_iff_getElem]
  refine ⟨hi, beq_self_eq_true _, fun j hj => ?_⟩
  rw [beq_iff_eq, hnodup.getElem_inj_iff]
  exact fun heq => Nat.ne_of_lt hj heq

theorem getElem?_of_idxOf? {names : List String} {i : Nat} {name : String}
    (h : names.idxOf? name = some i) : names[i]? = some name := by
  obtain ⟨hi, hname, -⟩ := List.idxOf?_eq_some_iff.1 h
  rw [List.getElem?_eq_getElem hi, hname]

theorem idxOf?_eq_some_iff {names : List String} (hnodup : names.Nodup) {name : String} {i : Nat} :
    names.idxOf? name = some i ↔ names[i]? = some name :=
  ⟨getElem?_of_idxOf?, idxOf?_eq_some hnodup⟩

theorem exists_idxOf?_eq {names : List String} {name : String} (h : names.contains name = true) :
    ∃ i, names.idxOf? name = some i ∧ names[i]? = some name := by
  cases hfound : names.idxOf? name with
  | none => exact absurd (List.contains_iff_mem.1 h) (List.idxOf?_eq_none_iff.1 hfound)
  | some i => exact ⟨i, rfl, getElem?_of_idxOf? hfound⟩

theorem idxOf?_eq_none_of_contains {names : List String} {name : String}
    (h : names.contains name = false) : names.idxOf? name = none := by
  refine List.idxOf?_eq_none_iff.2 fun hmem => ?_
  rw [List.contains_iff_mem.2 hmem] at h
  cases h

namespace Vocabulary

variable {vocabulary : Vocabulary}

/-! ## Declaring -/

/-- A list of names is accepted just if none is empty, repeated, or among those before it. -/
theorem checkNames_eq_ok_iff {list : String} {before names : List String} :
    checkNames list before names = .ok () ↔
      "" ∉ names ∧ names.Nodup ∧ ∀ name ∈ names, name ∉ before := by
  induction names generalizing before with
  | nil => exact ⟨fun _ => ⟨nofun, .nil, nofun⟩, fun _ => rfl⟩
  | cons name names ih =>
    rw [checkNames, List.nodup_cons, List.forall_mem_cons, List.mem_cons, not_or]
    split
    next hempty => exact ⟨nofun, fun h => absurd hempty.symm h.1.1⟩
    next hempty =>
      split
      next hbefore => exact ⟨nofun, fun h => absurd (List.contains_iff_mem.1 hbefore) h.2.2.1⟩
      next hbefore =>
        rw [List.contains_iff_mem] at hbefore
        rw [ih]
        -- the name counts as one before the others, so they may not repeat it
        constructor
        · rintro ⟨hne, hnodup, hfresh⟩
          refine ⟨⟨Ne.symm hempty, hne⟩, ⟨fun hmem => hfresh name hmem List.mem_cons_self, hnodup⟩,
            hbefore, fun name' hmem hmem' => ?_⟩
          exact hfresh name' hmem (List.mem_cons_of_mem name hmem')
        · rintro ⟨⟨-, hne⟩, ⟨hnew, hnodup⟩, -, hfresh⟩
          refine ⟨hne, hnodup, fun name' hmem => List.not_mem_cons_of_ne_of_not_mem ?_ ?_⟩
          · rintro rfl
            exact hnew hmem
          · exact hfresh name' hmem

/-- Nothing stands against declaring two lists of names. -/
structure Declarable (elements behaviors : List String) : Prop where
  elements_ne_nil : elements ≠ []
  behaviors_ne_nil : behaviors ≠ []
  elements_named : "" ∉ elements
  behaviors_named : "" ∉ behaviors
  elements_nodup : elements.Nodup
  behaviors_nodup : behaviors.Nodup
  disjoint : ∀ name ∈ elements, name ∉ behaviors

theorem ofNames_eq_ok_iff {elements behaviors : List String} :
    ofNames elements behaviors = .ok vocabulary ↔
      Declarable elements behaviors ∧ vocabulary = ⟨elements, behaviors⟩ := by
  have hshared : elements.find? behaviors.contains = none ↔
      ∀ name ∈ elements, name ∉ behaviors := by
    simp only [List.find?_eq_none, List.contains_iff_mem]
  rw [ofNames]
  constructor
  · intro h
    split at h
    next => cases h
    next helements =>
      split at h
      next => cases h
      next hbehaviors =>
        obtain ⟨⟨⟩, hcheck, h⟩ := bind_eq_ok.1 h
        obtain ⟨⟨⟩, hcheck', h⟩ := bind_eq_ok.1 h
        obtain ⟨hnamed, hnodup, -⟩ := checkNames_eq_ok_iff.1 hcheck
        obtain ⟨hnamed', hnodup', -⟩ := checkNames_eq_ok_iff.1 hcheck'
        split at h
        next => cases h
        next hnone =>
          cases h
          exact ⟨⟨mt List.isEmpty_iff.2 helements, mt List.isEmpty_iff.2 hbehaviors, hnamed,
            hnamed', hnodup, hnodup', hshared.1 hnone⟩, rfl⟩
  · rintro ⟨h, rfl⟩
    rw [if_neg (mt List.isEmpty_iff.1 h.elements_ne_nil),
      if_neg (mt List.isEmpty_iff.1 h.behaviors_ne_nil)]
    refine bind_eq_ok.2 ⟨(), checkNames_eq_ok_iff.2 ⟨h.elements_named, h.elements_nodup, nofun⟩, ?_⟩
    refine bind_eq_ok.2
      ⟨(), checkNames_eq_ok_iff.2 ⟨h.behaviors_named, h.behaviors_nodup, nofun⟩, ?_⟩
    rw [hshared.2 h.disjoint]
    rfl

/-- Declared names can be told apart. -/
theorem nodup_of_ofNames (h : ofNames vocabulary.elements vocabulary.behaviors = .ok vocabulary) :
    vocabulary.elements.Nodup ∧ vocabulary.behaviors.Nodup ∧
      ∀ name ∈ vocabulary.elements, name ∉ vocabulary.behaviors := by
  obtain ⟨hnames, -⟩ := ofNames_eq_ok_iff.1 h
  exact ⟨hnames.elements_nodup, hnames.behaviors_nodup, hnames.disjoint⟩

/-! ## Looking up -/

theorem element_eq_ok_iff (hnodup : vocabulary.elements.Nodup) {name place : String}
    {e : ElementId} :
    vocabulary.element name place = .ok e ↔ vocabulary.elements[e]? = some name := by
  rw [element, element?, ← idxOf?_eq_some_iff hnodup]
  cases vocabulary.elements.idxOf? name <;> simp

theorem behavior_eq_ok_iff (hnodup : vocabulary.behaviors.Nodup) {name place : String}
    {b : BehaviorId} :
    vocabulary.behavior name place = .ok b ↔ vocabulary.behaviors[b]? = some name := by
  rw [behavior, behavior?, ← idxOf?_eq_some_iff hnodup]
  cases vocabulary.behaviors.idxOf? name <;> simp

/-! ## Pairs -/

theorem pair_eq_pair_iff {element element' : ElementId} {behavior behavior' : BehaviorId}
    (hbehavior : behavior < vocabulary.behaviorCount)
    (hbehavior' : behavior' < vocabulary.behaviorCount) :
    vocabulary.pair element behavior = vocabulary.pair element' behavior' ↔
      element = element' ∧ behavior = behavior' := by
  have hrow {e b : Nat} (hb : b < vocabulary.behaviorCount) :
      vocabulary.pair e b / vocabulary.behaviorCount = e := by
    rw [pair, Nat.add_comm, Nat.add_mul_div_right _ _ (Nat.zero_lt_of_lt hb),
      Nat.div_eq_of_lt hb, Nat.zero_add]
  constructor
  · intro h
    have helement := congrArg (· / vocabulary.behaviorCount) h
    simp only [hrow hbehavior, hrow hbehavior'] at helement
    subst helement
    exact ⟨rfl, Nat.add_left_cancel h⟩
  · rintro ⟨rfl, rfl⟩
    rfl

/-- The pairs are numbered one to one. -/
theorem bijOn_pair (vocabulary : Vocabulary) :
    Set.BijOn (fun ids : ElementId × BehaviorId => vocabulary.pair ids.1 ids.2)
      {ids | ids.1 < vocabulary.elementCount ∧ ids.2 < vocabulary.behaviorCount}
      (Set.Iio vocabulary.pairCount) := by
  refine ⟨fun ids h => vocabulary.pair_lt h.1 h.2, fun ids h ids' h' heq => ?_, fun k hk => ?_⟩
  · obtain ⟨helement, hbehavior⟩ := (pair_eq_pair_iff h.2 h'.2).1 heq
    exact Prod.ext helement hbehavior
  · have hlt : k < vocabulary.elementCount * vocabulary.behaviorCount := hk
    have hpos : 0 < vocabulary.behaviorCount := Nat.pos_of_lt_mul_left hlt
    refine ⟨(k / vocabulary.behaviorCount, k % vocabulary.behaviorCount), ⟨?_, ?_⟩, ?_⟩
    · exact Nat.div_lt_of_lt_mul (Nat.mul_comm _ _ ▸ hlt)
    · exact Nat.mod_lt _ hpos
    · exact Nat.div_add_mod' k vocabulary.behaviorCount

/-! ## The names and their numbers -/

/-- Two lists of names can be declared just if nothing makes them ambiguous, and then every name
and every pair has a number of its own. -/
theorem faithful_index (elements behaviors : List String) :
    ((∃ vocabulary, ofNames elements behaviors = .ok vocabulary) ↔
      Declarable elements behaviors) ∧
    ∀ vocabulary, ofNames elements behaviors = .ok vocabulary →
      (∀ name e, vocabulary.element? name = some e ↔ elements[e]? = some name) ∧
      (∀ name b, vocabulary.behavior? name = some b ↔ behaviors[b]? = some name) ∧
      (∀ name, vocabulary.element? name = none ∨ vocabulary.behavior? name = none) ∧
      vocabulary.pairCount = elements.length * behaviors.length ∧
      Set.BijOn (fun ids : ElementId × BehaviorId => vocabulary.pair ids.1 ids.2)
        {ids | ids.1 < elements.length ∧ ids.2 < behaviors.length}
        (Set.Iio vocabulary.pairCount) := by
  refine ⟨⟨?_, ?_⟩, fun vocabulary h => ?_⟩
  · rintro ⟨vocabulary, h⟩
    exact (ofNames_eq_ok_iff.1 h).1
  · intro h
    exact ⟨_, ofNames_eq_ok_iff.2 ⟨h, rfl⟩⟩
  · obtain ⟨hnames, rfl⟩ := ofNames_eq_ok_iff.1 h
    refine ⟨fun name e => idxOf?_eq_some_iff hnames.elements_nodup,
      fun name b => idxOf?_eq_some_iff hnames.behaviors_nodup, fun name => ?_, rfl, bijOn_pair _⟩
    rw [element?, behavior?, List.idxOf?_eq_none_iff, List.idxOf?_eq_none_iff]
    by_cases hmem : name ∈ elements
    · exact .inr (hnames.disjoint name hmem)
    · exact .inl hmem

/-- Two elements and three behaviors: the last pair has the last of the six numbers.  A behavior
that is called like an element is refused. -/
theorem faithful_index_twoByThree :
    ofNames ["cs", "us"] ["wait", "press", "groom"] =
        .ok ⟨["cs", "us"], ["wait", "press", "groom"]⟩ ∧
      (Vocabulary.mk ["cs", "us"] ["wait", "press", "groom"]).element? "us" = some 1 ∧
      (Vocabulary.mk ["cs", "us"] ["wait", "press", "groom"]).behavior? "us" = none ∧
      Set.BijOn (fun ids : ElementId × BehaviorId =>
          (Vocabulary.mk ["cs", "us"] ["wait", "press", "groom"]).pair ids.1 ids.2)
        {ids | ids.1 < 2 ∧ ids.2 < 3} (Set.Iio 6) ∧
      ¬∃ vocabulary, ofNames ["cs", "us"] ["wait", "us"] = .ok vocabulary := by
  have hdeclared : ofNames ["cs", "us"] ["wait", "press", "groom"] =
      .ok ⟨["cs", "us"], ["wait", "press", "groom"]⟩ := rfl
  obtain ⟨-, hfaithful⟩ := faithful_index ["cs", "us"] ["wait", "press", "groom"]
  obtain ⟨helement, -, hone, -, hpairs⟩ := hfaithful _ hdeclared
  have hus : (Vocabulary.mk ["cs", "us"] ["wait", "press", "groom"]).element? "us" = some 1 :=
    (helement "us" 1).2 rfl
  refine ⟨hdeclared, hus, (hone "us").resolve_left (by simp [hus]), hpairs, fun h => ?_⟩
  have hnames : Declarable ["cs", "us"] ["wait", "us"] := (faithful_index _ _).1.1 h
  exact hnames.disjoint "us" (by simp) (by simp)

end Vocabulary

end Conditioning
