import Conditioning.Proofs.Script.Assembly
import Mathlib.Data.List.Nodup

/-!
# Settings merged and phases gathered

Two things add up over the blocks of a script.  The value of a setting is the last
one that was given (`Dict.get?_foldl_merge`): merging puts one entry after the other,
and putting a value under a text hides what was there.  A phase consists of the
parts under its label, and the phases stand in the order in which their labels first
appear (`PhaseText.gather`); putting one more part among them is gathering one more
part (`PhaseText.putPhase_gather`).
-/

namespace Conditioning

/-! ## Merged settings -/

namespace Literal

theorem asText?_eq_some {key : Literal} {name : String} (h : key.asText? = some name) :
    key = .str name := by
  cases key with
  | str text => rw [Option.some.inj h]
  | _ => cases h

theorem same_str (key : Literal) (name : String) :
    key.same (.str name) = (key.asText? == some name) := by
  cases key <;> rfl

theorem str_same (name : String) (key : Literal) :
    (Literal.str name).same key = (key.asText? == some name) := by
  cases key <;> simp [same, asText?, eq_comm]

end Literal

namespace Dict

/-- A value is found under the text under which it was put. -/
theorem get?_put (d : Dict) (key value : Literal) (name : String) :
    (d.put key value).get? name =
      if key.asText? = some name then some value else d.get? name := by
  obtain ⟨entries⟩ := d
  simp only [get?, entries_put]
  split
  next hkey =>
    obtain rfl := Literal.asText?_eq_some hkey
    induction entries with
    | nil => simp [Literal.asText?]
    | cons entry entries ih =>
      rw [putEntry_cons, Literal.same_str]
      split
      next hsame => simp only [List.find?_cons, hsame, Option.map_some]
      next hsame => simp only [List.find?_cons, hsame, ih]
  next hkey =>
    induction entries with
    | nil => simp [hkey]
    | cons entry entries ih =>
      rw [putEntry_cons]
      split
      next hsame =>
        have hentry : ¬(entry.1.asText? == some name) = true := by
          intro htext
          rw [Literal.asText?_eq_some (beq_iff_eq.1 htext), Literal.str_same] at hsame
          exact hkey (beq_iff_eq.1 hsame)
        simp only [List.find?_cons, hentry]
      next =>
        rw [List.find?_cons, List.find?_cons]
        split
        · rfl
        · exact ih

/-- The value that the last of the entries of some dicts with a name gives. -/
def last? (dicts : List Dict) (name : String) : Option Literal :=
  ((dicts.flatMap Dict.entries).reverse.find? fun entry => entry.1.asText? == some name).map
    Prod.snd

theorem merge_cons (d : Dict) (entry : Literal × Literal) (entries : List (Literal × Literal)) :
    d.merge ⟨entry :: entries⟩ = (d.put entry.1 entry.2).merge ⟨entries⟩ := rfl

theorem get?_merge (d other : Dict) (name : String) :
    (d.merge other).get? name =
      ((other.entries.reverse.find? fun entry => entry.1.asText? == some name).map Prod.snd).or
        (d.get? name) := by
  obtain ⟨entries⟩ := other
  induction entries generalizing d with
  | nil => rfl
  | cons entry entries ih =>
    rw [merge_cons, ih, get?_put, List.reverse_cons, List.find?_append]
    cases entries.reverse.find? fun entry => entry.1.asText? == some name with
    | some found => rfl
    | none => by_cases h : entry.1.asText? = some name <;> simp [h]

/-- Of dicts that are merged in order the later ones override the earlier ones. -/
theorem get?_foldl_merge (dicts : List Dict) (name : String) :
    (dicts.foldl Dict.merge Dict.empty).get? name = last? dicts name := by
  induction dicts using List.reverseRecOn with
  | nil => rfl
  | append_singleton dicts d ih =>
    rw [List.foldl_append, List.foldl_cons, List.foldl_nil, get?_merge, ih, last?, last?,
      List.flatMap_append, List.flatMap_singleton, List.reverse_append, List.find?_append]
    cases d.entries.reverse.find? fun entry => entry.1.asText? == some name <;> rfl

end Dict

/-- A block that is not refused is merged as a whole. -/
theorem Parameters.merge_of_refusal?_eq_none (p : Parameters) {block : Dict}
    (h : refusal? block = none) : p.merge block = ⟨p.values.merge block⟩ := by
  have hnamed : block.entries.takeWhile isNamed = block.entries := by
    rw [refusal?, Option.map_eq_none_iff, List.find?_eq_none] at h
    have hall : ∀ entry ∈ block.entries, isNamed entry = true := by simpa using h
    have htake : (block.entries ++ []).takeWhile isNamed =
        block.entries ++ [].takeWhile isNamed := List.takeWhile_append_of_pos hall
    rwa [List.takeWhile_nil, List.append_nil] at htake
  rw [merge, hnamed]

/-! ## Gathered phases -/

theorem eraseDups_append_singleton {α : Type} [BEq α] [LawfulBEq α] (xs : List α)
    (x : α) :
    (xs ++ [x]).eraseDups = if x ∈ xs then xs.eraseDups else xs.eraseDups ++ [x] := by
  rw [List.eraseDups_append]
  by_cases h : x ∈ xs
  · simp [List.removeAll, h]
  · have hrest : [x].removeAll xs = [x] := by simp [List.removeAll, h]
    rw [hrest, if_neg h]
    rfl

theorem nodup_eraseDups {α : Type} [BEq α] [LawfulBEq α] (xs : List α) :
    xs.eraseDups.Nodup := by
  induction xs using List.reverseRecOn with
  | nil => exact List.nodup_nil
  | append_singleton xs x ih =>
    rw [eraseDups_append_singleton]
    split
    next => exact ih
    next hx =>
      refine List.nodup_append.2 ⟨ih, List.nodup_singleton x, ?_⟩
      intro y hy z hz
      rw [List.mem_singleton.1 hz]
      exact ne_of_mem_of_not_mem (List.mem_eraseDups.1 hy) hx

namespace PhaseText

/-- The phase that the parts with a label make up: their rows one after the other, and the last of
their ends. -/
def ofParts (parts : List PhaseText) (label : String) : PhaseText :=
  let own := parts.filter fun part => part.label == label
  ⟨label, (own.getLast?.map PhaseText.ending).getD "", own.flatMap PhaseText.rows⟩

/-- The phases that parts make up, in the order in which their labels first appear. -/
def gather (parts : List PhaseText) : List PhaseText :=
  (parts.map PhaseText.label).eraseDups.map (ofParts parts)

variable {parts : List PhaseText} {part : PhaseText}

@[simp] theorem label_ofParts (parts : List PhaseText) (label : String) :
    (ofParts parts label).label = label := rfl

theorem ofParts_append_of_ne {label : String} (h : label ≠ part.label) :
    ofParts (parts ++ [part]) label = ofParts parts label := by
  simp [ofParts, List.filter_append, Ne.symm h]

theorem ofParts_append_self :
    ofParts (parts ++ [part]) part.label =
      ⟨part.label, part.ending, (ofParts parts part.label).rows ++ part.rows⟩ := by
  simp [ofParts, List.filter_append]

theorem ofParts_of_not_mem {label : String} (h : label ∉ parts.map PhaseText.label) :
    ofParts parts label = ⟨label, "", []⟩ := by
  have hown : (parts.filter fun part => part.label == label) = [] := by
    refine List.filter_eq_nil_iff.2 fun part hpart hlabel => h ?_
    exact beq_iff_eq.1 hlabel ▸ List.mem_map_of_mem hpart
  rw [ofParts, hown]
  rfl

/-- Putting one more part into the phases of some labels. -/
theorem putPhase_map_ofParts {labels : List String} (hnodup : labels.Nodup) :
    Script.putPhase part.label part.ending part.rows (labels.map (ofParts parts)) =
      if part.label ∈ labels then labels.map (ofParts (parts ++ [part]))
      else labels.map (ofParts (parts ++ [part])) ++ [part] := by
  induction labels with
  | nil => rfl
  | cons label labels ih =>
    obtain ⟨hlabel, hlabels⟩ := List.nodup_cons.1 hnodup
    rw [List.map_cons, Script.putPhase, label_ofParts]
    by_cases heq : label = part.label
    · subst heq
      have hrest : labels.map (ofParts (parts ++ [part])) = labels.map (ofParts parts) :=
        List.map_congr_left fun other hother =>
          ofParts_append_of_ne (ne_of_mem_of_not_mem hother hlabel)
      rw [if_pos rfl, if_pos List.mem_cons_self, List.map_cons, hrest, ofParts_append_self]
    · have hhead : ofParts (parts ++ [part]) label = ofParts parts label :=
        ofParts_append_of_ne heq
      rw [if_neg heq, ih hlabels, List.map_cons, hhead]
      by_cases hmem : part.label ∈ labels
      · rw [if_pos hmem, if_pos (List.mem_cons_of_mem _ hmem)]
      · rw [if_neg hmem, if_neg (List.not_mem_cons_of_ne_of_not_mem (Ne.symm heq) hmem)]
        rfl

/-- One more part is put under its label. -/
theorem putPhase_gather :
    Script.putPhase part.label part.ending part.rows (gather parts) = gather (parts ++ [part]) := by
  rw [gather, putPhase_map_ofParts (nodup_eraseDups _), gather, List.map_append, List.map_singleton,
    eraseDups_append_singleton]
  simp only [List.mem_eraseDups]
  split
  next => rfl
  next hlabel =>
    rw [List.map_append, List.map_singleton, ofParts_append_self, ofParts_of_not_mem hlabel]
    rfl

end PhaseText

end Conditioning
