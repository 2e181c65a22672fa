import Conditioning.Proofs.Mechanism.Tables
import Conditioning.Proofs.Script.Gather
import Mathlib.Data.List.Find

/-!
# Two names of the costs

The costs of the behaviors can be given under a long name and under a short one.
Blocks of settings are merged name by name, so a later block overrides an earlier
one under the same name only.  The two names meet when the mechanism is made: it
looks under the long name first, and under the short name if there is nothing.

So the names are interchangeable as long as the long name has the last word: writing
it in place of the short one changes nothing if it does not occur, or if the last
costs are given under it.  Otherwise, costs that are given under the short name after
others under the long name are not taken (`Mechanism.ofBlocks_spelledOut`), although
they come later (`Mechanism.not_ofBlocks_spelledOut`).
-/

namespace Conditioning

/-! ## Keys -/

/-- What is found once at most is found from either end. -/
theorem find?_reverse_of_countP_le_one {α : Type} {p : α → Bool} {xs : List α}
    (h : xs.countP p ≤ 1) : xs.reverse.find? p = xs.find? p := by
  induction xs with
  | nil => rfl
  | cons x xs ih =>
    rw [List.reverse_cons, List.find?_append]
    cases hx : p x with
    | true =>
      rw [List.countP_cons_of_pos hx] at h
      have hnone : xs.reverse.find? p = none := by
        rw [List.find?_eq_none]
        simpa using List.countP_eq_zero.1 (Nat.le_zero.1 (Nat.le_of_succ_le_succ h))
      simp [hnone, hx]
    | false =>
      rw [List.countP_cons_of_neg (by simp [hx])] at h
      simp [ih h, hx]

namespace Literal

/-- A text is the same as texts only. -/
theorem isSome_asText?_of_same {key other : Literal} (h : key.same other = true) :
    key.asText?.isSome = other.asText?.isSome := by
  cases hkey : key.asText? with
  | some name =>
    obtain rfl := asText?_eq_some hkey
    rw [str_same, beq_iff_eq] at h
    rw [h]
  | none =>
    cases hother : other.asText? with
    | none => rfl
    | some name =>
      obtain rfl := asText?_eq_some hother
      rw [same_str, hkey] at h
      cases h

end Literal

namespace Dict

/-- The keys of a dict. -/
def keys (d : Dict) : List Literal := d.entries.map Prod.fst

/-- The keys of a dict that are texts. -/
def names (d : Dict) : List String := d.keys.filterMap Literal.asText?

/-- A key is kept at its first place. -/
theorem keys_put (d : Dict) (key value : Literal) :
    (d.put key value).keys =
      if d.keys.any fun other => other.same key then d.keys else d.keys ++ [key] := by
  obtain ⟨entries⟩ := d
  show (putEntry key value entries).map Prod.fst =
    if (entries.map Prod.fst).any fun other => other.same key then entries.map Prod.fst
    else entries.map Prod.fst ++ [key]
  induction entries with
  | nil => rfl
  | cons entry entries ih =>
    rw [putEntry_cons, List.map_cons, List.any_cons]
    by_cases hsame : entry.1.same key = true
    · simp [hsame]
    · simp only [hsame, Bool.false_or, Bool.false_eq_true, if_false, List.map_cons, ih]
      split <;> rfl

theorem nodup_names_put {d : Dict} (h : d.names.Nodup) (key value : Literal) :
    (d.put key value).names.Nodup := by
  rw [names, keys_put]
  split
  next => exact h
  next hnew =>
    rw [List.filterMap_append]
    refine List.nodup_append.2 ⟨h, ?_, ?_⟩
    · cases hkey : key.asText? <;> simp [hkey]
    · intro name hname name' hname' heq
      subst heq
      obtain ⟨other, hother, htext⟩ := List.mem_filterMap.1 hname
      obtain ⟨key', hkey', htext'⟩ := List.mem_filterMap.1 hname'
      cases List.mem_singleton.1 hkey'
      obtain rfl := Literal.asText?_eq_some htext'
      refine hnew (List.any_eq_true.2 ⟨other, hother, ?_⟩)
      rw [Literal.same_str, htext, beq_self_eq_true]

/-- No text is a key twice. -/
theorem nodup_names_merge {d : Dict} (h : d.names.Nodup) (other : Dict) :
    (d.merge other).names.Nodup := by
  obtain ⟨entries⟩ := other
  induction entries generalizing d with
  | nil => exact h
  | cons entry entries ih =>
    rw [merge_cons]
    exact ih (nodup_names_put h entry.1 entry.2)

/-- Among texts that are all different, the last value under a name is the only one. -/
theorem last?_singleton_of_nodup {d : Dict} (h : d.names.Nodup) (name : String) :
    last? [d] name = d.get? name := by
  have hcount : d.entries.countP (fun entry => entry.1.asText? == some name) ≤ 1 := by
    refine Nat.le_trans (Nat.le_of_eq ?_) (List.nodup_iff_count_le_one.1 h name)
    rw [List.count, names, keys, List.countP_filterMap, List.countP_map]
    refine List.countP_congr fun entry _ => ?_
    cases hkey : entry.1.asText? <;> simp [hkey]
  rw [last?, List.flatMap_singleton, find?_reverse_of_countP_le_one hcount]
  rfl

theorem last?_cons (d : Dict) (dicts : List Dict) (name : String) :
    last? (d :: dicts) name = (last? dicts name).or (last? [d] name) := by
  simp only [last?, List.flatMap_cons, List.flatMap_nil, List.append_nil, List.reverse_append,
    List.find?_append, Option.map_or]

/-- What is put together anew has the same last values. -/
theorem last?_merge_empty (other : Dict) (name : String) :
    last? [empty.merge other] name = last? [other] name := by
  have hnodup : (empty.merge other).names.Nodup :=
    nodup_names_merge (d := empty) List.nodup_nil other
  rw [last?_singleton_of_nodup hnodup]
  exact get?_foldl_merge [other] name

end Dict

/-! ## Refused blocks -/

namespace Parameters

/-- Whether a key is no text. -/
def isNameless (key : Literal) : Bool := !key.asText?.isSome

/-- The first key that is no text decides how a block is refused. -/
theorem refusal?_eq (block : Dict) :
    refusal? block =
      (block.keys.find? isNameless).map fun key => .malformed (.parameterKey key) := by
  rw [Dict.keys, List.find?_map, Option.map_map]
  rfl

theorem find?_isNameless_put (d : Dict) (key value : Literal) :
    (d.put key value).keys.find? isNameless = (d.keys ++ [key]).find? isNameless := by
  rw [Dict.keys_put]
  split
  next hold =>
    obtain ⟨other, hother, hsame⟩ := List.any_eq_true.1 hold
    rw [List.find?_append]
    cases hkey : isNameless key with
    | false => simp [hkey]
    | true =>
      -- a key that is the same was there before, and it is no text either
      have hnameless : isNameless other = true := by
        rw [isNameless, Literal.isSome_asText?_of_same hsame]
        exact hkey
      have hsome : (d.keys.find? isNameless).isSome :=
        List.find?_isSome.2 ⟨other, hother, hnameless⟩
      rw [Option.or_of_isSome hsome]
  next => rfl

theorem find?_isNameless_merge (d other : Dict) :
    (d.merge other).keys.find? isNameless = (d.keys ++ other.keys).find? isNameless := by
  obtain ⟨entries⟩ := other
  induction entries generalizing d with
  | nil => exact congrArg _ (List.append_nil d.keys).symm
  | cons entry entries ih =>
    rw [Dict.merge_cons, ih, List.find?_append, find?_isNameless_put, ← List.find?_append,
      List.append_assoc]
    rfl

/-- Blocks that are merged in order are refused for the first block that is refused, or every one
overrides those before it. -/
theorem foldlM_merge? (blocks : List Dict) (p : Parameters) :
    blocks.foldlM merge? p = match blocks.findSome? refusal? with
      | some error => .error error
      | none => .ok ⟨blocks.foldl Dict.merge p.values⟩ := by
  induction blocks generalizing p with
  | nil => rfl
  | cons block blocks ih =>
    rw [List.foldlM_cons, merge?, List.findSome?_cons]
    cases hrefusal : refusal? block with
    | some error => rfl
    | none =>
      rw [p.merge_of_refusal?_eq_none hrefusal]
      exact ih _

end Parameters

/-! ## Settings and mechanisms -/

namespace Mechanism

/-- Settings that differ in nothing but the names under which they give the costs stand for the same
mechanism. -/
theorem ofParameters_congr {p p' : Parameters} (hcost : p.cost? = p'.cost?)
    (h : ∀ name, name ≠ Parameter.cost → name ≠ Parameter.shortCost → p.get? name = p'.get? name) :
    ofParameters p = ofParameters p' := by
  have hgiven (setting : TableSetting) : setting.given? p = setting.given? p' := by
    cases setting with
    | cost => exact hcost
    | startV | utility | alphaV | alphaW => exact h _ (by decide) (by decide)
  refine ofParameters_eq_of_expand (fun setting _ => by rw [hgiven setting]) fun name hname => ?_
  exact h name (fun hlong => hname .cost (hlong ▸ by decide))
    fun hshort => hname .cost (hshort ▸ by decide)

/-- The mechanism of blocks of settings that are merged in order. -/
def ofBlocks (blocks : List Dict) : Except Error (Mechanism Float) :=
  blocks.foldlM Parameters.merge? Parameters.empty >>= ofParameters

end Mechanism

/-! ## The long name and the short one -/

/-- The long name of the costs, if the key is the short one. -/
def Parameter.longKey (key : Literal) : Literal :=
  if key.asText? = some shortCost then .str cost else key

theorem Parameter.asText?_longKey (key : Literal) :
    (longKey key).asText? = if key.asText? = some shortCost then some cost else key.asText? := by
  rw [longKey]
  split <;> rfl

/-- Whether an entry gives the costs, under either name. -/
def Parameter.givesCost (entry : Literal × Literal) : Bool :=
  entry.1.asText? == some cost || entry.1.asText? == some shortCost

namespace Dict

/-- A block with the long name in place of the short one.  Of two entries that get the same name the
later one overrides the earlier one. -/
def spelledOut (block : Dict) : Dict :=
  empty.merge ⟨block.entries.map fun entry => (Parameter.longKey entry.1, entry.2)⟩

/-- A block without costs under the short name. -/
def withoutShortCost (block : Dict) : Dict :=
  ⟨block.entries.filter fun entry => entry.1.asText? != some Parameter.shortCost⟩

/-- The last entry of some blocks that gives the costs, under either name. -/
def lastCost? (blocks : List Dict) : Option (Literal × Literal) :=
  (blocks.flatMap entries).reverse.find? Parameter.givesCost

/-- The long name is a text, as the short one is. -/
theorem refusal?_spelledOut (block : Dict) :
    Parameters.refusal? block.spelledOut = Parameters.refusal? block := by
  rw [Parameters.refusal?_eq, Parameters.refusal?_eq, spelledOut, Parameters.find?_isNameless_merge]
  refine congrArg _ ?_
  show ((block.entries.map fun entry => (Parameter.longKey entry.1, entry.2)).map Prod.fst).find?
    Parameters.isNameless = (block.entries.map Prod.fst).find? Parameters.isNameless
  induction block.entries with
  | nil => rfl
  | cons entry entries ih =>
    rw [List.map_cons, List.map_cons, List.map_cons, List.find?_cons, List.find?_cons, ih]
    by_cases hshort : entry.1.asText? = some Parameter.shortCost
    · have hnamed : Parameters.isNameless entry.1 = false := by
        rw [Parameters.isNameless, hshort]
        rfl
      have hlong : Parameters.isNameless (Parameter.longKey entry.1) = false := by
        rw [Parameters.isNameless, Parameter.asText?_longKey, if_pos hshort]
        rfl
      rw [hnamed, hlong]
    · rw [Parameter.longKey, if_neg hshort]

theorem refusal?_withoutShortCost (block : Dict) :
    Parameters.refusal? block.withoutShortCost = Parameters.refusal? block := by
  rw [Parameters.refusal?, Parameters.refusal?, withoutShortCost, List.find?_filter]
  refine congrArg (Option.map _) (congrArg (List.find? · block.entries) (funext fun entry => ?_))
  cases hkey : entry.1.asText? <;> simp [Parameters.isNamed, hkey]

theorem last?_map_spelledOut (blocks : List Dict) (name : String) :
    last? (blocks.map spelledOut) name =
      ((blocks.flatMap entries).reverse.find? fun entry =>
        (Parameter.longKey entry.1).asText? == some name).map Prod.snd := by
  induction blocks with
  | nil => rfl
  | cons block blocks ih =>
    rw [List.map_cons, last?_cons, ih, spelledOut, last?_merge_empty, last?, List.flatMap_singleton,
      ← List.map_reverse, List.find?_map, Option.map_map, List.flatMap_cons, List.reverse_append,
      List.find?_append, Option.map_or]
    rfl

theorem last?_cost_spelledOut (blocks : List Dict) :
    last? (blocks.map spelledOut) Parameter.cost = (lastCost? blocks).map Prod.snd := by
  rw [last?_map_spelledOut, lastCost?]
  refine congrArg (Option.map _) (congrArg (List.find? · _) (funext fun entry => ?_))
  rw [Parameter.givesCost, Parameter.asText?_longKey]
  by_cases hshort : entry.1.asText? = some Parameter.shortCost <;> simp [hshort]

theorem last?_shortCost_spelledOut (blocks : List Dict) :
    last? (blocks.map spelledOut) Parameter.shortCost = none := by
  rw [last?_map_spelledOut, Option.map_eq_none_iff, List.find?_eq_none]
  intro entry _
  rw [Parameter.asText?_longKey]
  by_cases hshort : entry.1.asText? = some Parameter.shortCost
  · rw [if_pos hshort]
    decide
  · simp [hshort]

theorem last?_spelledOut (blocks : List Dict) {name : String} (hlong : name ≠ Parameter.cost)
    (hshort : name ≠ Parameter.shortCost) :
    last? (blocks.map spelledOut) name = last? blocks name := by
  rw [last?_map_spelledOut, last?]
  refine congrArg (Option.map _) (congrArg (List.find? · _) (funext fun entry => ?_))
  rw [Parameter.asText?_longKey]
  by_cases hkey : entry.1.asText? = some Parameter.shortCost <;>
    simp [hkey, hlong.symm, hshort.symm]

theorem last?_withoutShortCost (blocks : List Dict) (name : String) :
    last? (blocks.map withoutShortCost) name =
      if name = Parameter.shortCost then none else last? blocks name := by
  have hentries : (blocks.map withoutShortCost).flatMap entries =
      (blocks.flatMap entries).filter fun entry =>
        entry.1.asText? != some Parameter.shortCost := by
    rw [List.flatMap_map, List.filter_flatMap]
    rfl
  rw [last?, hentries, ← List.filter_reverse, List.find?_filter]
  split
  next hname =>
    rw [Option.map_eq_none_iff, List.find?_eq_none]
    rintro entry -
    simp [hname]
  next hname =>
    rw [last?]
    refine congrArg (Option.map _) (congrArg (List.find? · _) (funext fun entry => ?_))
    by_cases hkey : entry.1.asText? = some name <;> simp [hkey, hname]

/-- If the last costs are given under the long name, they are the last ones under this name. -/
theorem last?_cost_of_lastCost? {blocks : List Dict}
    (h : (lastCost? blocks).map Prod.fst = some (.str Parameter.cost)) :
    last? blocks Parameter.cost = (lastCost? blocks).map Prod.snd := by
  obtain ⟨entry, hentry, hkey⟩ := Option.map_eq_some_iff.1 h
  obtain ⟨-, later, before, hblocks, hlater⟩ := List.find?_eq_some_iff_append.1 hentry
  have hfound : (blocks.flatMap entries).reverse.find? (fun entry =>
      entry.1.asText? == some Parameter.cost) = some entry := by
    refine List.find?_eq_some_iff_append.2 ⟨by rw [hkey]; rfl, later, before, hblocks, ?_⟩
    intro other hother
    have hnone := hlater other hother
    rw [Parameter.givesCost, Bool.not_eq_true', Bool.or_eq_false_iff] at hnone
    simpa using hnone.1
  rw [last?, hfound, hentry]

/-- If no costs are given under the long name, the last ones are given under the short name. -/
theorem lastCost?_of_last?_eq_none {blocks : List Dict} (h : last? blocks Parameter.cost = none) :
    (lastCost? blocks).map Prod.snd = last? blocks Parameter.shortCost := by
  rw [last?, Option.map_eq_none_iff, List.find?_eq_none] at h
  rw [lastCost?, last?]
  refine congrArg (Option.map _) (List.find?_congr fun entry hentry => ?_)
  rw [Parameter.givesCost, Bool.eq_false_iff.2 (h entry hentry), Bool.false_or]

end Dict

namespace Mechanism

open Dict (last? lastCost? spelledOut withoutShortCost)

/-- Blocks that are refused alike and give the same last values make the same mechanism. -/
theorem ofBlocks_map {f : Dict → Dict} {blocks : List Dict}
    (hrefusal : ∀ block, Parameters.refusal? (f block) = Parameters.refusal? block)
    (hcost : (last? (blocks.map f) Parameter.cost).or (last? (blocks.map f) Parameter.shortCost) =
      (last? blocks Parameter.cost).or (last? blocks Parameter.shortCost))
    (h : ∀ name, name ≠ Parameter.cost → name ≠ Parameter.shortCost →
      last? (blocks.map f) name = last? blocks name) :
    ofBlocks (blocks.map f) = ofBlocks blocks := by
  have hrefused : (blocks.map f).findSome? Parameters.refusal? =
      blocks.findSome? Parameters.refusal? := by
    rw [List.findSome?_map]
    exact congrArg (List.findSome? · blocks) (funext hrefusal)
  rw [ofBlocks, ofBlocks, Parameters.foldlM_merge?, Parameters.foldlM_merge?, hrefused]
  cases blocks.findSome? Parameters.refusal? with
  | some error => rfl
  | none =>
    refine ofParameters_congr ?_ fun name hlong hshort => ?_
    · simp only [Parameters.cost?, Parameters.get?, Parameters.empty, Dict.get?_foldl_merge, hcost]
    · simp only [Parameters.get?, Parameters.empty, Dict.get?_foldl_merge, h name hlong hshort]

/-- If the costs are not given under the long name, or the last ones are given under it, the two
names mean the same.  If they are given under the long name, those under the short name mean
nothing. -/
theorem ofBlocks_spelledOut (blocks : List Dict) :
    (last? blocks Parameter.cost = none ∨
        (lastCost? blocks).map Prod.fst = some (.str Parameter.cost) →
      ofBlocks (blocks.map spelledOut) = ofBlocks blocks) ∧
    (last? blocks Parameter.cost ≠ none →
      ofBlocks (blocks.map withoutShortCost) = ofBlocks blocks) := by
  constructor
  · intro h
    refine ofBlocks_map Dict.refusal?_spelledOut ?_ fun name => Dict.last?_spelledOut blocks
    rw [Dict.last?_cost_spelledOut, Dict.last?_shortCost_spelledOut, Option.or_none]
    rcases h with hnone | hlong
    · rw [hnone, Option.none_or, Dict.lastCost?_of_last?_eq_none hnone]
    · obtain ⟨entry, hentry, -⟩ := Option.map_eq_some_iff.1 hlong
      rw [Dict.last?_cost_of_lastCost? hlong, hentry, Option.map_some, Option.some_or]
  · intro h
    obtain ⟨value, hvalue⟩ := Option.ne_none_iff_exists'.1 h
    have hlong : Parameter.cost ≠ Parameter.shortCost := by decide
    refine ofBlocks_map Dict.refusal?_withoutShortCost ?_ fun name _ hshort => ?_
    · rw [Dict.last?_withoutShortCost, if_neg hlong, hvalue, Option.some_or, Option.some_or]
    · rw [Dict.last?_withoutShortCost, if_neg hshort]

/-- Settings of one element and one behavior, and some more entries. -/
def settingsWith (entries : List (Literal × Literal)) : Dict :=
  ⟨[(.str "mechanism", .str "rescorla_wagner"), (.str "stimulus_elements", .str "cs"),
    (.str "behaviors", .str "press")] ++ entries⟩

/-- The mechanism of these settings with a cost. -/
def costing (x : Float) : Mechanism Float :=
  ⟨.rescorlaWagner, { Configuration.default ⟨["cs"], ["press"]⟩ with cost := Table.fill 1 x }⟩

/-- A cost under the short name is overridden by a later one under the long name.  A third one,
under the short name again, means nothing. -/
theorem ofBlocks_spelledOut_overridden :
    let blocks := [settingsWith [(.str "c", .float 2.0)], ⟨[(.str "behavior_cost", .float 1.0)]⟩]
    let later := blocks ++ [⟨[(.str "c", .float 4.0)]⟩]
    (lastCost? blocks).map Prod.fst = some (.str Parameter.cost) ∧
      ofBlocks blocks = .ok (costing 1.0) ∧
      ofBlocks (blocks.map spelledOut) = .ok (costing 1.0) ∧
      last? later Parameter.cost ≠ none ∧ ofBlocks later = .ok (costing 1.0) ∧
      ofBlocks (later.map withoutShortCost) = .ok (costing 1.0) := by
  intro blocks later
  have hlast : (lastCost? blocks).map Prod.fst = some (.str Parameter.cost) := rfl
  have hblocks : ofBlocks blocks = .ok (costing 1.0) := rfl
  have hvalue : last? later Parameter.cost = some (.float 1.0) := rfl
  have hsome : last? later Parameter.cost ≠ none := by
    rw [hvalue]
    exact Option.some_ne_none _
  have hlater : ofBlocks later = .ok (costing 1.0) := rfl
  exact ⟨hlast, hblocks, ((ofBlocks_spelledOut blocks).1 (.inr hlast)).trans hblocks, hsome, hlater,
    ((ofBlocks_spelledOut later).2 hsome).trans hlater⟩

/-- A cost under the short name does not override an earlier one under the long name: the names are
not interchangeable. -/
theorem not_ofBlocks_spelledOut :
    ¬ ∀ blocks : List Dict, ofBlocks (blocks.map spelledOut) = ofBlocks blocks := by
  intro h
  have hblocks : ofBlocks [settingsWith [(.str "behavior_cost", .float 1.0)],
      ⟨[(.str "c", .float 2.0)]⟩] = .ok (costing 1.0) := rfl
  have hspelledOut : ofBlocks ([settingsWith [(.str "behavior_cost", .float 1.0)],
      ⟨[(.str "c", .float 2.0)]⟩].map spelledOut) = .ok (costing 2.0) := rfl
  have heq := Except.ok.inj ((hspelledOut.symm.trans (h _)).trans hblocks)
  have hcost : (costing 2.0).config.cost.read 0 = (costing 1.0).config.cost.read 0 := by rw [heq]
  revert hcost
  decide

end Mechanism

end Conditioning
