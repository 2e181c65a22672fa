import Conditioning.Proofs.Literal.Keys
import Conditioning.Proofs.Literal.Sameness
import Conditioning.Proofs.Script.Gather

/-!
# Merging dicts

A dict whose keys are distinct is an ordered map, and merging is told by one equation
(`Dict.entries_merge`): the entries of the first dict in their order, with the values
of the second one where it has the key, and then those entries of the second dict whose
keys are new, in their order.  What is found under a key after a merge is what the
second dict has, or else what the first one has (`Dict.find?_merge`).

So a merge is associative, the empty dict changes nothing, and nor does a dict that is
merged with itself, if its keys are the same as themselves.
-/

namespace Conditioning

open Literal (DistinctKeys NaNFree WellKeyed same_comm same_congr_left same_congr_right)

namespace Dict

variable {entries : List (Literal × Literal)}

/-! ## Values under keys -/

/-- The value under a key of any kind. -/
def find? (d : Dict) (key : Literal) : Option Literal :=
  (d.entries.find? fun entry => entry.1.same key).map Prod.snd

/-- The value under a text is the value under that text as a key. -/
theorem get?_eq_find? (d : Dict) (name : String) : d.get? name = d.find? (.str name) := by
  simp only [get?, find?, Literal.same_str]

@[simp] theorem find?_nil (key : Literal) : find? ⟨[]⟩ key = none := rfl

theorem find?_cons (entry : Literal × Literal) (entries : List (Literal × Literal))
    (key : Literal) :
    find? ⟨entry :: entries⟩ key =
      if entry.1.same key then some entry.2 else find? ⟨entries⟩ key := by
  rw [find?, find?, List.find?_cons]
  split
  next h => rw [h, if_pos rfl, Option.map_some]
  next h => rw [h, if_neg Bool.false_ne_true]

theorem find?_eq_none {d : Dict} {key : Literal} :
    d.find? key = none ↔ ∀ entry ∈ d.entries, entry.1.same key = false := by
  simp [find?]

/-- Keys that are the same have the same value. -/
theorem find?_congr {key key' : Literal} (h : key.same key' = true) (d : Dict) :
    d.find? key = d.find? key' := by
  simp only [find?, same_congr_right h]

/-- A key that is not the same as any behind it is not found behind it, whatever it is called. -/
theorem find?_eq_none_of_same {entry : Literal × Literal}
    (h : ∀ later ∈ entries, entry.1.same later.1 = false) {key : Literal}
    (hkey : entry.1.same key = true) : find? ⟨entries⟩ key = none := by
  refine find?_eq_none.2 fun later hlater => ?_
  rw [← same_congr_right hkey, same_comm]
  exact h later hlater

theorem find?_of_mem {d : Dict} (hdistinct : DistinctKeys d.entries) {entry : Literal × Literal}
    (hentry : entry ∈ d.entries) (hself : entry.1.same entry.1 = true) :
    d.find? entry.1 = some entry.2 := by
  obtain ⟨entries⟩ := d
  induction entries with
  | nil => cases hentry
  | cons first entries ih =>
    obtain ⟨hfirst, hlater⟩ := List.pairwise_cons.1 hdistinct
    rw [find?_cons]
    rcases List.mem_cons.1 hentry with rfl | hmem
    · rw [if_pos hself]
    · rw [hfirst entry hmem, if_neg Bool.false_ne_true]
      exact ih hlater hmem

/-! ## Putting -/

theorem find?_put (d : Dict) (key value key' : Literal) :
    (d.put key value).find? key' = if key.same key' then some value else d.find? key' := by
  obtain ⟨entries⟩ := d
  induction entries with
  | nil => exact find?_cons (key, value) [] key'
  | cons entry entries ih =>
    simp only [put, putEntry_cons] at ih ⊢
    split
    next hsame =>
      rw [find?_cons, find?_cons, same_congr_left hsame]
      split <;> rfl
    next hsame =>
      rw [find?_cons, find?_cons, ih]
      split
      next hentry =>
        -- the entry in front would be the same as the key that is put
        rw [if_neg]
        intro hkey
        rw [same_congr_right hkey] at hsame
        exact hsame hentry
      next => rfl

/-- Putting changes the value of the key that is there, or adds the key at the end. -/
theorem entries_put_eq (d : Dict) (hdistinct : DistinctKeys d.entries) (key value : Literal) :
    (d.put key value).entries =
      d.entries.map (fun entry => (entry.1, if entry.1.same key then value else entry.2)) ++
        if (d.find? key).isNone then [(key, value)] else [] := by
  obtain ⟨entries⟩ := d
  induction entries with
  | nil => rfl
  | cons entry entries ih =>
    obtain ⟨hentry, hlater⟩ := List.pairwise_cons.1 hdistinct
    rw [entries_put] at ih ⊢
    rw [putEntry_cons, find?_cons]
    split
    next hsame =>
      have hrest : entries.map (fun later =>
          (later.1, if later.1.same key then value else later.2)) = entries := by
        refine (List.map_congr_left fun later hmem => ?_).trans (List.map_id entries)
        rw [← same_congr_right hsame, same_comm, hentry later hmem]
        rfl
      simp [hsame, hrest]
    next hsame => simp [hsame, ih hlater]

/-! ## Merging -/

theorem distinctKeys_merge {d : Dict} (h : DistinctKeys d.entries) (other : Dict) :
    DistinctKeys (d.merge other).entries := by
  obtain ⟨entries⟩ := other
  induction entries generalizing d with
  | nil => exact h
  | cons entry entries ih => exact ih (h.putEntry entry.1 entry.2)

/-- What the second dict has under a key hides what the first one has. -/
theorem find?_merge (d : Dict) {other : Dict} (hother : DistinctKeys other.entries)
    (key : Literal) : (d.merge other).find? key = (other.find? key).or (d.find? key) := by
  obtain ⟨entries⟩ := other
  induction entries generalizing d with
  | nil => rfl
  | cons entry entries ih =>
    obtain ⟨hentry, hlater⟩ := List.pairwise_cons.1 hother
    rw [merge_cons, ih _ hlater, find?_put, find?_cons]
    split
    next hkey =>
      rw [find?_eq_none_of_same hentry hkey]
      rfl
    next => rfl

/-- A merge keeps the entries of the first dict in place, with the values of the second one, and
adds those entries of the second dict whose keys are new. -/
theorem entries_merge {d other : Dict} (hd : DistinctKeys d.entries)
    (hother : DistinctKeys other.entries) :
    (d.merge other).entries =
      d.entries.map (fun entry => (entry.1, (other.find? entry.1).getD entry.2)) ++
        other.entries.filter fun entry => (d.find? entry.1).isNone := by
  obtain ⟨entries⟩ := other
  induction entries generalizing d with
  | nil => simp [merge]
  | cons entry entries ih =>
    obtain ⟨hentry, hlater⟩ := List.pairwise_cons.1 hother
    have hgone {key : Literal} (h : entry.1.same key = true) : find? ⟨entries⟩ key = none :=
      find?_eq_none_of_same hentry h
    -- the later keys are new after the entry is put just if they were before
    have hnew : entries.filter (fun later => ((d.put entry.1 entry.2).find? later.1).isNone) =
        entries.filter fun later => (d.find? later.1).isNone := by
      refine List.filter_congr fun later hmem => ?_
      rw [find?_put, hentry later hmem, if_neg Bool.false_ne_true]
    have hkept : d.entries.map (fun old => (old.1, (find? ⟨entries⟩ old.1).getD
          (if old.1.same entry.1 then entry.2 else old.2))) =
        d.entries.map fun old => (old.1, (find? ⟨entry :: entries⟩ old.1).getD old.2) := by
      refine List.map_congr_left fun old _ => ?_
      rw [find?_cons, same_comm old.1]
      split
      next hsame => rw [hgone hsame, Option.getD_none, Option.getD_some]
      next => rfl
    have hmerge := ih (d := d.put entry.1 entry.2) (hd.putEntry entry.1 entry.2) hlater
    rw [merge_cons, hmerge, hnew, entries_put_eq d hd, List.map_append, List.map_map,
      List.append_assoc, List.filter_cons]
    refine congrArg₂ (· ++ ·) hkept ?_
    have halone : find? ⟨entries⟩ entry.1 = none :=
      find?_eq_none.2 fun later hmem => (same_comm later.1 entry.1).trans (hentry later hmem)
    split
    next => simp [halone]
    next => rfl

theorem merge_assoc {a b c : Dict} (ha : DistinctKeys a.entries) (hb : DistinctKeys b.entries)
    (hc : DistinctKeys c.entries) : (a.merge b).merge c = a.merge (b.merge c) := by
  refine congrArg Dict.mk (?_ : ((a.merge b).merge c).entries = (a.merge (b.merge c)).entries)
  have hvalue (entry : Literal × Literal) :
      (c.find? entry.1).getD ((b.find? entry.1).getD entry.2) =
        ((b.merge c).find? entry.1).getD entry.2 := by
    rw [find?_merge b hc]
    cases c.find? entry.1 <;> rfl
  have hnew (entry : Literal × Literal) : ((a.merge b).find? entry.1).isNone =
      ((a.find? entry.1).isNone && (b.find? entry.1).isNone) := by
    rw [find?_merge a hb]
    cases b.find? entry.1 <;> simp
  rw [entries_merge (distinctKeys_merge ha b) hc, entries_merge ha hb,
    entries_merge ha (distinctKeys_merge hb c), entries_merge hb hc]
  simp only [List.map_append, List.map_map, List.filter_append, List.filter_map, List.filter_filter,
    List.append_assoc, Function.comp_def, hvalue, hnew]

theorem empty_merge {d : Dict} (h : DistinctKeys d.entries) : empty.merge d = d := by
  refine congrArg Dict.mk (?_ : (empty.merge d).entries = d.entries)
  rw [entries_merge (d := empty) .nil h]
  exact List.filter_true _

theorem merge_self {d : Dict} (h : DistinctKeys d.entries)
    (hself : ∀ entry ∈ d.entries, NaNFree entry.1) : d.merge d = d := by
  have hfound (entry) (hentry : entry ∈ d.entries) : d.find? entry.1 = some entry.2 :=
    find?_of_mem h hentry (hself entry hentry).same_self
  refine congrArg Dict.mk (?_ : (d.merge d).entries = d.entries)
  have hkept : d.entries.map (fun entry => (entry.1, (d.find? entry.1).getD entry.2)) =
      d.entries := by
    refine (List.map_congr_left fun entry hentry => ?_).trans (List.map_id d.entries)
    rw [hfound entry hentry]
    rfl
  have hnew : d.entries.filter (fun entry => (d.find? entry.1).isNone) = [] := by
    refine List.filter_eq_nil_iff.2 fun entry hentry => ?_
    rw [hfound entry hentry]
    exact Bool.false_ne_true
  rw [entries_merge h h, hkept, hnew, List.append_nil]

/-! ## Dicts as ordered maps -/

/-- The dicts that are read have distinct keys at every depth, and merging such dicts is lawful. -/
theorem merge_lawful :
    (∀ input value, Literal.parse input = .ok value → WellKeyed value) ∧
    (∀ input d, Literal.parseDict input = .ok d → WellKeyed (.dict d.entries)) ∧
    (∀ input items, Literal.parseSequence input = .ok items → ∀ item ∈ items, WellKeyed item) ∧
    (∀ a b : Dict, DistinctKeys a.entries → DistinctKeys b.entries →
      DistinctKeys (a.merge b).entries ∧
      (a.merge b).entries =
        a.entries.map (fun entry => (entry.1, (b.find? entry.1).getD entry.2)) ++
          b.entries.filter (fun entry => (a.find? entry.1).isNone) ∧
      (∀ c : Dict, DistinctKeys c.entries → (a.merge b).merge c = a.merge (b.merge c)) ∧
      ∀ name, (a.merge b).get? name = (b.get? name).or (a.get? name)) ∧
    ∀ a : Dict, DistinctKeys a.entries → a.merge empty = a ∧ empty.merge a = a ∧
      ((∀ entry ∈ a.entries, NaNFree entry.1) → a.merge a = a) := by
  refine ⟨fun _ _ => Literal.wellKeyed_of_parse, fun _ _ => Literal.wellKeyed_of_parseDict,
    fun _ _ => Literal.wellKeyed_of_parseSequence, fun a b ha hb => ?_, fun a ha => ?_⟩
  · refine ⟨distinctKeys_merge ha b, entries_merge ha hb, fun c hc => merge_assoc ha hb hc, ?_⟩
    intro name
    simp only [get?_eq_find?, find?_merge a hb]
  · exact ⟨merge_empty a, empty_merge ha, merge_self ha⟩

/-- A dict in a key is read as well.  Zero and negative zero are one key, also in a tuple, and the
key keeps its place and its sign. -/
theorem merge_lawful_zeros :
    let nested : Literal := .dict [(.tuple [.dict [(.str "x", .int 1)], .null], .int 2)]
    let zero : Literal := .tuple [.float 0.0]
    let a : Dict := ⟨[(zero, .int 1), (.str "x", .int 2)]⟩
    let b : Dict := ⟨[(.str "y", .int 3), (.tuple [.float (-0.0)], .int 4)]⟩
    let c : Dict := ⟨[(.str "y", .int 5)]⟩
    Literal.parse nested.toText = .ok nested ∧ WellKeyed nested ∧
      DistinctKeys a.entries ∧ DistinctKeys b.entries ∧ DistinctKeys c.entries ∧
      (∀ entry ∈ a.entries, NaNFree entry.1) ∧
      (a.merge b).entries = [(zero, .int 4), (.str "x", .int 2), (.str "y", .int 3)] ∧
      (a.merge b).merge c = a.merge (b.merge c) ∧ a.merge a = a ∧
      (a.merge b).get? "y" = some (.int 3) := by
  intro nested zero a b c
  have ha : DistinctKeys a.entries := List.pairwise_pair.2 rfl
  have hb : DistinctKeys b.entries := List.pairwise_pair.2 rfl
  have hc : DistinctKeys c.entries := List.pairwise_singleton _ _
  have hself : ∀ entry ∈ a.entries, NaNFree entry.1 := by
    refine List.forall_mem_cons.2 ⟨?_, List.forall_mem_singleton.2 (.str "x")⟩
    exact .tuple (List.forall_mem_singleton.2 (.float (by decide)))
  have hplain : Literal.IsPlain "x" := by simp [Literal.IsPlain]
  have hread : Literal.parse nested.toText = .ok nested := by
    refine Literal.parse_of_hasValue (Literal.hasValue_toText nested ?_) rfl
    have hinner : Literal.Printable (.dict [(.str "x", .int 1)]) :=
      ⟨List.pairwise_singleton _ _, rfl, hplain, trivial, trivial⟩
    exact ⟨List.pairwise_singleton _ _, rfl, ⟨hinner, trivial, trivial⟩, trivial, trivial⟩
  obtain ⟨hparse, -, -, hmerge, hunits⟩ := merge_lawful
  obtain ⟨-, hentries, hassoc, hget⟩ := hmerge a b ha hb
  exact ⟨hread, hparse _ _ hread, ha, hb, hc, hself, hentries, hassoc c hc,
    (hunits a ha).2.2 hself, hget "y"⟩

end Dict

end Conditioning
