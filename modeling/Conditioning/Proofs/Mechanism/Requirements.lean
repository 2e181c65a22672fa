import Conditioning.Proofs.Mechanism.Names

/-!
# Requirements turned round

A script says which elements a behavior requires; a response asks which behaviors an
element allows.  A behavior that is no key of the dict is possible for every element, and
one that is a key for the elements that are listed under it (`Allows`), be it one name or
a list or a tuple of names, with repetitions or without any.

Every element is left with the behaviors that it allows, in the order in which they are
declared, each of them once.  Requirements that leave an element with no behavior are
refused, and so is everything that is not of this form.
-/

namespace Conditioning

/-! ## Names -/

namespace Literal

/-- A value gives names: one of them, or the items of a list or of a tuple. -/
inductive GivesNames : Literal → List String → Prop where
  | one (name : String) : GivesNames (.str name) [name]
  | list (names : List String) : GivesNames (.list (names.map .str)) names
  | tuple (names : List String) : GivesNames (.tuple (names.map .str)) names

variable {value : Literal} {names : List String}

theorem mapM_asText?_eq_some_iff {items : List Literal} :
    items.mapM asText? = some names ↔ items = names.map .str := by
  induction items generalizing names with
  | nil => simp [List.mapM_nil, eq_comm]
  | cons item items ih =>
    simp only [List.mapM_cons, Option.bind_eq_bind, Option.bind_eq_some_iff, ih, Option.pure_def,
      Option.some.injEq]
    constructor
    · rintro ⟨name, hname, names, rfl, rfl⟩
      rw [asText?_eq_some hname, List.map_cons]
    · intro h
      cases names with
      | nil => cases h
      | cons name names =>
        obtain ⟨rfl, rfl⟩ := List.cons.inj h
        exact ⟨name, rfl, names, rfl, rfl⟩

theorem asNames?_eq_some_iff : value.asNames? = some names ↔ value.GivesNames names := by
  constructor
  · intro h
    cases value with
    | str name =>
      cases h
      exact .one name
    | list items =>
      obtain rfl := mapM_asText?_eq_some_iff.1 h
      exact .list names
    | tuple items =>
      obtain rfl := mapM_asText?_eq_some_iff.1 h
      exact .tuple names
    | _ => cases h
  · intro h
    cases h with
    | one => rfl
    | list => exact mapM_asText?_eq_some_iff.2 rfl
    | tuple => exact mapM_asText?_eq_some_iff.2 rfl

theorem GivesNames.unique {names' : List String} (h : value.GivesNames names)
    (h' : value.GivesNames names') : names = names' :=
  Option.some.inj ((asNames?_eq_some_iff.2 h).symm.trans (asNames?_eq_some_iff.2 h'))

end Literal

namespace Configuration

open Literal (DistinctKeys KeysDiffer GivesNames)
open TableSetting (Names entry_eq)

/-! ## Requirements -/

section

variable (vocabulary : Vocabulary)

/-- The key names a behavior, and the value gives names of elements. -/
structure IsRequirement (entry : Literal × Literal) : Prop where
  key : ∃ b, Names vocabulary .behavior entry.1 b
  value : ∃ names, entry.2.GivesNames names ∧ ∀ name ∈ names, name ∈ vocabulary.elements

/-- A behavior is possible for an element: it is no key, or the element is listed under it. -/
inductive Allows (entries : List (Literal × Literal)) : BehaviorId → ElementId → Prop where
  | unlisted {b : BehaviorId} (h : ∀ entry ∈ entries, ¬Names vocabulary .behavior entry.1 b)
    (e : ElementId) : Allows entries b e
  | listed {entry : Literal × Literal} {b : BehaviorId} {e : ElementId} {names : List String}
    {name : String} (hentry : entry ∈ entries) (hkey : Names vocabulary .behavior entry.1 b)
    (hnames : entry.2.GivesNames names) (hname : name ∈ names)
    (helement : vocabulary.elements[e]? = some name) : Allows entries b e

end

/-! ## Reading them -/

variable {vocabulary : Vocabulary} {entries : List (Literal × Literal)}
  {rows : List (BehaviorId × List ElementId)}

section

variable
  (hvocabulary : Vocabulary.ofNames vocabulary.elements vocabulary.behaviors = .ok vocabulary)

include hvocabulary

/-- An entry is read as a behavior and the elements that it requires. -/
theorem requirementRow_eq_ok_iff {entry : Literal × Literal} {b : BehaviorId}
    {elements : List ElementId} :
    requirementRow vocabulary entry = .ok (b, elements) ↔
      Names vocabulary .behavior entry.1 b ∧ ∃ names, entry.2.GivesNames names ∧
        names.mapM (fun name => vocabulary.element name (placeOf Parameter.requirements)) =
          .ok elements := by
  have hslot {b : BehaviorId} : behaviorSlot vocabulary Parameter.requirements entry.1 = .ok b ↔
      Names vocabulary .behavior entry.1 b :=
    @TableSetting.Shape.slot_eq_ok_iff vocabulary .behavior _ _ hvocabulary _
  simp only [← Literal.asNames?_eq_some_iff, ← hslot]
  constructor
  · intro h
    obtain ⟨b, hb, h⟩ := bind_eq_ok.1 h
    split at h
    next => cases h
    next names hnames =>
      obtain ⟨elements, helements, h⟩ := bind_eq_ok.1 h
      cases h
      exact ⟨hb, names, hnames, helements⟩
  · rintro ⟨hb, names, hnames, helements⟩
    refine bind_eq_ok.2 ⟨_, hb, ?_⟩
    rw [hnames]
    exact bind_eq_ok.2 ⟨_, helements, rfl⟩

theorem exists_requirementRows_iff :
    (∃ rows, requirementRows vocabulary ⟨entries⟩ = .ok rows) ↔
      ∀ entry ∈ entries, IsRequirement vocabulary entry := by
  obtain ⟨helements, -, -⟩ := Vocabulary.nodup_of_ofNames hvocabulary
  rw [requirementRows, exists_mapM_eq_ok_iff]
  refine forall₂_congr fun entry _ => ?_
  simp only [Prod.exists, requirementRow_eq_ok_iff hvocabulary]
  constructor
  · rintro ⟨b, elements, hkey, names, hnames, hread⟩
    refine ⟨⟨b, hkey⟩, names, hnames, fun name hname => ?_⟩
    obtain ⟨e, he⟩ := exists_mapM_eq_ok_iff.1 ⟨elements, hread⟩ name hname
    exact List.mem_of_getElem? ((Vocabulary.element_eq_ok_iff helements).1 he)
  · rintro ⟨⟨b, hkey⟩, names, hnames, hdeclared⟩
    obtain ⟨elements, hread⟩ : ∃ elements, names.mapM (fun name =>
        vocabulary.element name (placeOf Parameter.requirements)) = .ok elements := by
      refine exists_mapM_eq_ok_iff.2 fun name hname => ?_
      obtain ⟨e, he⟩ := List.mem_iff_getElem?.1 (hdeclared name hname)
      exact ⟨e, (Vocabulary.element_eq_ok_iff helements).2 he⟩
    exact ⟨b, elements, hkey, names, hnames, hread⟩

/-- The rows allow what the entries say. -/
theorem allows_iff (hkeys : KeysDiffer entries)
    (h : requirementRows vocabulary ⟨entries⟩ = .ok rows) {b : BehaviorId} {e : ElementId} :
    allows rows b e = true ↔ Allows vocabulary entries b e := by
  obtain ⟨helements, -, -⟩ := Vocabulary.nodup_of_ofNames hvocabulary
  rw [allows]
  -- keys differ, so the row that is found first is the only one of the behavior
  cases hfind : rows.find? fun row => row.1 == b with
  | none =>
    refine iff_of_true rfl (.unlisted (fun entry hentry hkey => ?_) e)
    obtain ⟨row, hrow⟩ := exists_mapM_eq_ok_iff.1 ⟨rows, h⟩ entry hentry
    refine List.find?_eq_none.1 hfind row ((mem_mapM_iff h).2 ⟨entry, hentry, hrow⟩) ?_
    rw [((requirementRow_eq_ok_iff hvocabulary).1 hrow).1.cell_eq hvocabulary hkey]
    exact beq_self_eq_true b
  | some row =>
    obtain ⟨b', elements⟩ := row
    obtain rfl : b' = b := by simpa using List.find?_some hfind
    obtain ⟨entry, hentry, hrow⟩ := (mem_mapM_iff h).1 (List.mem_of_find?_eq_some hfind)
    obtain ⟨hkey, names, hnames, hread⟩ := (requirementRow_eq_ok_iff hvocabulary).1 hrow
    simp only [List.contains_iff_mem, mem_mapM_iff hread, Vocabulary.element_eq_ok_iff helements]
    constructor
    · rintro ⟨name, hname, helement⟩
      exact .listed hentry hkey hnames hname helement
    · intro hallows
      cases hallows with
      | unlisted hunlisted => exact absurd hkey (hunlisted entry hentry)
      | listed hother hkey' hnames' hname helement =>
        obtain rfl := entry_eq hkeys hentry hother hkey hkey'
        obtain rfl := hnames.unique hnames'
        exact ⟨_, hname, helement⟩

end

/-! ## Turning them round -/

/-- The row of an element. -/
theorem getElem?_invertRows {e : ElementId} {row : List BehaviorId} :
    (invertRows vocabulary rows)[e]? = some row ↔ e < vocabulary.elementCount ∧
      (List.range vocabulary.behaviorCount).filter (fun b => allows rows b e) = row := by
  rw [invertRows, List.getElem?_map]
  by_cases he : e < vocabulary.elementCount
  · simp [he]
  · simp [he]

/-- Rows are refused if one of them is empty. -/
theorem invertRequirements_eq_ok_iff {feasible : Array (List BehaviorId)} :
    invertRequirements vocabulary (.dict entries) = .ok feasible ↔ ∃ rows,
      requirementRows vocabulary ⟨entries⟩ = .ok rows ∧ [] ∉ invertRows vocabulary rows ∧
        feasible = (invertRows vocabulary rows).toArray := by
  rw [invertRequirements]
  simp only [Literal.asDict?]
  constructor
  · intro h
    obtain ⟨rows, hrows, h⟩ := bind_eq_ok.1 h
    split at h
    next => cases h
    next hnone => exact ⟨rows, hrows, List.idxOf?_eq_none_iff.1 hnone, (Except.ok.inj h).symm⟩
  · rintro ⟨rows, hrows, hcovered, rfl⟩
    refine bind_eq_ok.2 ⟨rows, hrows, ?_⟩
    simp only [List.idxOf?_eq_none_iff.2 hcovered]
    rfl

theorem nil_not_mem_invertRows_iff :
    [] ∉ invertRows vocabulary rows ↔ ∀ e < vocabulary.elementCount,
      ∃ b < vocabulary.behaviorCount, allows rows b e = true := by
  simp only [invertRows, List.mem_map, List.mem_range, List.filter_eq_nil_iff, not_exists, not_and,
    not_forall, not_not, exists_prop]

/-! ## What is refused, and what comes of the rest -/

section

variable
  (hvocabulary : Vocabulary.ofNames vocabulary.elements vocabulary.behaviors = .ok vocabulary)

include hvocabulary

theorem exists_invertRequirements_iff (hkeys : KeysDiffer entries)
    (hentries : ∀ entry ∈ entries, IsRequirement vocabulary entry) :
    (∃ feasible, invertRequirements vocabulary (.dict entries) = .ok feasible) ↔
      ∀ e < vocabulary.elementCount, ∃ b < vocabulary.behaviorCount,
        Allows vocabulary entries b e := by
  obtain ⟨rows, hrows⟩ := (exists_requirementRows_iff hvocabulary).2 hentries
  simp only [← allows_iff hvocabulary hkeys hrows, ← nil_not_mem_invertRows_iff]
  constructor
  · rintro ⟨feasible, h⟩
    obtain ⟨rows', hrows', hcovered, -⟩ := invertRequirements_eq_ok_iff.1 h
    obtain rfl := Except.ok.inj (hrows.symm.trans hrows')
    exact hcovered
  · exact fun hcovered => ⟨_, invertRequirements_eq_ok_iff.2 ⟨rows, hrows, hcovered, rfl⟩⟩

/-- The rows of the elements are in order, and hold the behaviors that the elements allow. -/
theorem rows_of_invertRequirements (hkeys : KeysDiffer entries)
    {feasible : Array (List BehaviorId)}
    (h : invertRequirements vocabulary (.dict entries) = .ok feasible) {e : ElementId}
    {row : List BehaviorId} (hrow : feasible[e]? = some row) :
    row.Pairwise (· < ·) ∧
      ∀ b, b ∈ row ↔ b < vocabulary.behaviorCount ∧ Allows vocabulary entries b e := by
  obtain ⟨rows, hrows, -, rfl⟩ := invertRequirements_eq_ok_iff.1 h
  rw [List.getElem?_toArray] at hrow
  obtain ⟨-, rfl⟩ := getElem?_invertRows.1 hrow
  refine ⟨List.pairwise_lt_range.filter _, fun b => ?_⟩
  rw [List.mem_filter, List.mem_range, allows_iff hvocabulary hkeys hrows]

theorem exists_error_of_not_requirements {setting : Literal}
    (h : ∀ entries, setting = .dict entries → ∃ entry ∈ entries, ¬IsRequirement vocabulary entry) :
    ∃ error, invertRequirements vocabulary setting = .error error := by
  cases hread : invertRequirements vocabulary setting with
  | error error => exact ⟨error, rfl⟩
  | ok feasible =>
    cases setting with
    | dict entries =>
      obtain ⟨rows, hrows, -⟩ := invertRequirements_eq_ok_iff.1 hread
      obtain ⟨entry, hentry, hnot⟩ := h entries rfl
      exact absurd ((exists_requirementRows_iff hvocabulary).1 ⟨rows, hrows⟩ entry hentry) hnot
    | _ => cases hread

/-- Requirements are turned round if they leave every element with a behavior; an element is then
left with the behaviors that it allows, in order.  Everything else is refused. -/
theorem invertRequirements_exact :
    (∀ entries, DistinctKeys entries → (∀ entry ∈ entries, IsRequirement vocabulary entry) →
      ((∃ feasible, invertRequirements vocabulary (.dict entries) = .ok feasible) ↔
        ∀ e < vocabulary.elementCount, ∃ b < vocabulary.behaviorCount,
          Allows vocabulary entries b e) ∧
      ∀ feasible, invertRequirements vocabulary (.dict entries) = .ok feasible →
        feasible.size = vocabulary.elementCount ∧
        ∀ e row, feasible[e]? = some row → row.Pairwise (· < ·) ∧
          ∀ b, b ∈ row ↔ b < vocabulary.behaviorCount ∧ Allows vocabulary entries b e) ∧
    ∀ setting,
      (∀ entries, setting = .dict entries → ∃ entry ∈ entries, ¬IsRequirement vocabulary entry) →
      ∃ error, invertRequirements vocabulary setting = .error error := by
  refine ⟨fun entries hdistinct hentries => ?_, fun _ => exists_error_of_not_requirements hvocabulary⟩
  have hkeys := hdistinct.keysDiffer
  refine ⟨exists_invertRequirements_iff hvocabulary hkeys hentries, fun feasible h => ⟨?_, ?_⟩⟩
  · obtain ⟨rows, -, -, rfl⟩ := invertRequirements_eq_ok_iff.1 h
    simp [invertRows]
  · exact fun e row => rows_of_invertRequirements hvocabulary hkeys h

end

/-- The second behavior requires the second element, which is listed twice. -/
def pressAtUs : List (Literal × Literal) :=
  [(.str "press", .tuple [.str "us", .str "us"])]

/-- The first behavior is possible for both elements, the second one for the second element only; a
number requires nothing and is refused. -/
theorem invertRequirements_exact_pressAtUs :
    (∃ feasible, invertRequirements PhaseText.trialVocabulary (.dict pressAtUs) = .ok feasible ∧
      feasible.size = 2 ∧
      (∀ row, feasible[0]? = some row → 0 ∈ row ∧ 1 ∉ row) ∧
      ∀ row, feasible[1]? = some row → 0 ∈ row ∧ 1 ∈ row) ∧
    ∃ error, invertRequirements PhaseText.trialVocabulary (.dict [(.str "press", .int 1)]) =
      .error error := by
  have hdeclared : Vocabulary.ofNames PhaseText.trialVocabulary.elements
      PhaseText.trialVocabulary.behaviors = .ok PhaseText.trialVocabulary := rfl
  obtain ⟨hinvert, hrefuse⟩ := invertRequirements_exact hdeclared
  have hpress : Names PhaseText.trialVocabulary .behavior (.str "press") 1 := .behavior rfl
  have hnames : (Literal.tuple [.str "us", .str "us"]).GivesNames ["us", "us"] :=
    .tuple ["us", "us"]
  have hwait (e : ElementId) : Allows PhaseText.trialVocabulary pressAtUs 0 e := by
    refine .unlisted (fun entry hentry h => ?_) e
    cases List.mem_singleton.1 hentry
    cases h.cell_eq hdeclared hpress
  have hus : Allows PhaseText.trialVocabulary pressAtUs 1 1 :=
    .listed List.mem_cons_self hpress hnames List.mem_cons_self rfl
  have hcs : ¬Allows PhaseText.trialVocabulary pressAtUs 1 0 := by
    intro h
    cases h with
    | unlisted h => exact h _ List.mem_cons_self hpress
    | listed hentry _ hnames' hname helement =>
      cases List.mem_singleton.1 hentry
      cases hnames'.unique hnames
      cases helement
      exact absurd hname (by decide)
  obtain ⟨hcovered, hrows⟩ := hinvert pressAtUs (List.pairwise_singleton _ _) (by
    refine List.forall_mem_singleton.2 ⟨⟨1, hpress⟩, _, hnames, ?_⟩
    decide)
  obtain ⟨feasible, hfeasible⟩ := hcovered.2 fun e _ => ⟨0, by decide, hwait e⟩
  obtain ⟨hsize, hrow⟩ := hrows feasible hfeasible
  refine ⟨⟨feasible, hfeasible, hsize, fun row h => ⟨?_, ?_⟩, fun row h => ⟨?_, ?_⟩⟩, ?_⟩
  · exact ((hrow 0 row h).2 0).2 ⟨by decide, hwait 0⟩
  · exact fun hmem => hcs (((hrow 0 row h).2 1).1 hmem).2
  · exact ((hrow 1 row h).2 0).2 ⟨by decide, hwait 1⟩
  · exact ((hrow 1 row h).2 1).2 ⟨by decide, hus⟩
  · refine hrefuse _ ?_
    rintro _ ⟨⟩
    refine ⟨_, List.mem_cons_self, fun ⟨_, names, h, _⟩ => ?_⟩
    cases h

/-- Values other than a name and a list of names are not all refused: a tuple is taken. -/
theorem not_invertRequirements_lists_only :
    ¬∀ vocabulary : Vocabulary,
      Vocabulary.ofNames vocabulary.elements vocabulary.behaviors = .ok vocabulary →
      ∀ entries, DistinctKeys entries →
      (∃ entry ∈ entries, ¬((∃ name ∈ vocabulary.elements, entry.2 = .str name) ∨
        ∃ names : List String, (∀ name ∈ names, name ∈ vocabulary.elements) ∧
          entry.2 = .list (names.map .str))) →
      ∃ error, invertRequirements vocabulary (.dict entries) = .error error := by
  intro hrefused
  obtain ⟨error, herror⟩ := hrefused ⟨["cs"], ["press"]⟩ rfl
    [(.str "press", .tuple [.str "cs"])] (List.pairwise_singleton _ _)
    ⟨_, List.mem_cons_self, by simp⟩
  have htaken : invertRequirements ⟨["cs"], ["press"]⟩
      (.dict [(.str "press", .tuple [.str "cs"])]) = .ok #[[0]] := rfl
  cases htaken.symm.trans herror

end Configuration

end Conditioning
