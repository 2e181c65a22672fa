import Conditioning.Proofs.Mechanism.Names
import Conditioning.Proofs.Mechanism.Presentations

/-!
# Tables of a script

Five settings are tables (`TableSetting`).  A setting that is not given stands for a
table that is built in, and a number for the table with this number in every cell.  A
dict gives numbers to cells by name, each name standing for one cell, and to all other
cells the number under `default`; without a default it has to list every cell, and the
learning rates do not even allow that (`TableSetting.Accepts`).  Nothing else is taken.

What a table then holds is told cell by cell (`TableSetting.Fills`) and speaks of the
entries of a dict but not of their order.  The keys of a dict are distinct, as they are in
settings that were read (`Parameters.distinctKeys_get?`), and distinct keys name distinct
cells (`TableSetting.Names.key_eq`), so no entry hides another one.  In particular a number
and a dict with this number as its default mean the same.
-/

namespace Conditioning

/-- Tables of one size that hold the same are the same. -/
theorem Table.ext_read {α : Type} [Scalar α] {t t' : Table α} (hsize : t.size = t'.size)
    (h : ∀ i < t.size, t.read i = t'.read i) : t = t' := by
  refine congrArg Table.mk (Array.ext hsize fun i hi hi' => ?_)
  have hread := h i hi
  rw [read, read, Array.getD_eq_getD_getElem?, Array.getD_eq_getD_getElem?,
    Array.getElem?_eq_getElem hi, Array.getElem?_eq_getElem hi'] at hread
  exact hread

namespace TableSetting

open Literal (DistinctKeys KeysDiffer)

variable {setting : TableSetting} {vocabulary : Vocabulary} {cell : Nat}

/-! ## What a dict lists -/

section

variable {entries : List (Literal × Literal)} {parameter : String}

theorem isDefault_iff {entry : Literal × Literal} :
    Configuration.isDefault entry = true ↔ entry.1 = .str Parameter.rest := by
  rw [Configuration.isDefault, beq_iff_eq]
  exact ⟨Literal.asText?_eq_some, fun h => h ▸ rfl⟩

theorem tableNumber_eq_ok_iff {value : Literal} {x : Float} :
    Configuration.tableNumber parameter value = .ok x ↔ value.asNumber? = some x := by
  rw [Configuration.tableNumber]
  split
  next hx => simp [hx]
  next hx => simp [hx]

/-- The only entry under `default` gives the default. -/
theorem tableDefault_eq_ok_iff (hkeys : KeysDiffer entries) {rest : Option Float} :
    Configuration.tableDefault parameter ⟨entries⟩ = .ok rest ↔
      rest = none ∧ (∀ entry ∈ entries, entry.1 ≠ .str Parameter.rest) ∨
      ∃ entry ∈ entries, entry.1 = .str Parameter.rest ∧
        ∃ x, entry.2.asNumber? = some x ∧ rest = some x := by
  have hget : Dict.get? ⟨entries⟩ Parameter.rest =
      (entries.find? Configuration.isDefault).map Prod.snd := rfl
  rw [Configuration.tableDefault, hget]
  cases hfind : entries.find? Configuration.isDefault with
  | none =>
    have hnone : ∀ entry ∈ entries, entry.1 ≠ .str Parameter.rest := fun entry hentry hkey =>
      List.find?_eq_none.1 hfind entry hentry (isDefault_iff.2 hkey)
    constructor
    · intro h
      exact .inl ⟨(Except.ok.inj h).symm, hnone⟩
    · rintro (⟨rfl, -⟩ | ⟨entry, hentry, hkey, -⟩)
      · rfl
      · exact absurd hkey (hnone entry hentry)
  | some found =>
    have hfound := List.mem_of_find?_eq_some hfind
    have hkey := isDefault_iff.1 (List.find?_some hfind)
    rw [Option.map_some, map_eq_ok]
    simp only [tableNumber_eq_ok_iff]
    constructor
    · rintro ⟨x, hx, rfl⟩
      exact .inr ⟨found, hfound, hkey, x, hx, rfl⟩
    · rintro (⟨-, hnone⟩ | ⟨entry, hentry, hkey', x, hx, rfl⟩)
      · exact absurd hkey (hnone found hfound)
      · obtain rfl := hkeys.eq_of_str hentry hfound hkey' hkey
        exact ⟨x, hx, rfl⟩

theorem mem_filter_listed {entry : Literal × Literal} :
    entry ∈ entries.filter (fun entry => !Configuration.isDefault entry) ↔
      entry ∈ entries ∧ entry.1 ≠ .str Parameter.rest := by
  rw [List.mem_filter, Bool.not_eq_true', Bool.eq_false_iff, Ne, isDefault_iff]

/-- An entry is read as a cell and its number. -/
theorem listedCell_eq_ok_iff {slot : Literal → Except Error Nat} {entry : Literal × Literal}
    {listed : Nat × Float} :
    (do
      let cell ← slot entry.1
      let x ← Configuration.tableNumber parameter entry.2
      return (cell, x)) = .ok listed ↔
      slot entry.1 = .ok listed.1 ∧ entry.2.asNumber? = some listed.2 := by
  constructor
  · intro h
    obtain ⟨cell, hcell, h⟩ := bind_eq_ok.1 h
    obtain ⟨x, hx, h⟩ := bind_eq_ok.1 h
    cases h
    exact ⟨hcell, tableNumber_eq_ok_iff.1 hx⟩
  · rintro ⟨hcell, hx⟩
    exact bind_eq_ok.2 ⟨_, hcell, bind_eq_ok.2 ⟨_, tableNumber_eq_ok_iff.2 hx, rfl⟩⟩

/-- The cells that are listed, with their numbers. -/
theorem mem_listedCells {slot : Literal → Except Error Nat} {listed : List (Nat × Float)}
    (h : Configuration.listedCells parameter slot ⟨entries⟩ = .ok listed) {cell : Nat} {x : Float} :
    (cell, x) ∈ listed ↔ ∃ entry ∈ entries, entry.1 ≠ .str Parameter.rest ∧
      slot entry.1 = .ok cell ∧ entry.2.asNumber? = some x := by
  rw [Configuration.listedCells] at h
  rw [mem_mapM_iff h]
  simp only [mem_filter_listed, listedCell_eq_ok_iff, and_assoc]

theorem exists_listedCells_iff {slot : Literal → Except Error Nat} :
    (∃ listed, Configuration.listedCells parameter slot ⟨entries⟩ = .ok listed) ↔
      ∀ entry ∈ entries, entry.1 ≠ .str Parameter.rest →
        (∃ cell, slot entry.1 = .ok cell) ∧ ∃ x, entry.2.asNumber? = some x := by
  rw [Configuration.listedCells, exists_mapM_eq_ok_iff]
  simp only [mem_filter_listed, listedCell_eq_ok_iff, Prod.exists, exists_and_left,
    exists_and_right, and_imp]

/-- A dict is expanded if its numbers can be read and every cell is covered. -/
theorem expand_dict_eq_ok_iff {t : Table Float} :
    setting.expand vocabulary (some (.dict entries)) = .ok t ↔ ∃ rest listed,
      Configuration.tableDefault setting.parameter ⟨entries⟩ = .ok rest ∧
      Configuration.listedCells setting.parameter
        (setting.shape.slot vocabulary setting.parameter) ⟨entries⟩ = .ok listed ∧
      (rest = none → setting.coverage = .defaultOrAll ∧
        Configuration.coversAll (setting.size vocabulary) listed = true) ∧
      Configuration.assemble (setting.size vocabulary) (rest.getD 0.0) listed = t := by
  rw [expand, Configuration.expand]
  simp only [Literal.asNumber?, Literal.asDict?]
  constructor
  · intro h
    obtain ⟨rest, hrest, h⟩ := bind_eq_ok.1 h
    obtain ⟨listed, hlisted, h⟩ := bind_eq_ok.1 h
    refine ⟨rest, listed, hrest, hlisted, ?_⟩
    cases rest with
    | some x => exact ⟨fun hnone => absurd hnone (Option.some_ne_none x), Except.ok.inj h⟩
    | none =>
      cases hcoverage : setting.coverage with
      | defaultOnly =>
        rw [hcoverage] at h
        cases h
      | defaultOrAll =>
        rw [hcoverage] at h
        simp only at h
        split at h
        next hall => exact ⟨fun _ => ⟨rfl, hall⟩, Except.ok.inj h⟩
        next => cases h
  · rintro ⟨rest, listed, hrest, hlisted, hcovered, rfl⟩
    refine bind_eq_ok.2 ⟨rest, hrest, bind_eq_ok.2 ⟨listed, hlisted, ?_⟩⟩
    cases rest with
    | some x => rfl
    | none =>
      obtain ⟨hcoverage, hall⟩ := hcovered rfl
      rw [hcoverage]
      simp only [hall]
      rfl

end

/-! ## Writing what is listed -/

/-- A cell holds the one number that is written to it, or what it held before. -/
theorem read_foldl_put {listed : List (Nat × Float)} {t : Table Float} {x : Float}
    (hcell : cell < t.size) (hsame : ∀ y, (cell, y) ∈ listed → y = x)
    (h : t.read cell = x ∨ ∃ y, (cell, y) ∈ listed) :
    (listed.foldl (fun t written => t.put written.1 written.2) t).read cell = x := by
  induction listed generalizing t with
  | nil => exact h.resolve_right fun ⟨_, hy⟩ => nomatch hy
  | cons written listed ih =>
    rw [List.foldl_cons]
    refine ih (by rwa [Table.size_put]) (fun y hy => hsame y (List.mem_cons_of_mem _ hy)) ?_
    rw [Table.read_put]
    split
    next hwritten => exact .inl (hsame _ (hwritten.1 ▸ List.mem_cons_self))
    next hother =>
      refine h.imp_right fun ⟨y, hy⟩ => ⟨y, (List.mem_cons.1 hy).resolve_left ?_⟩
      rintro rfl
      exact hother ⟨rfl, hcell⟩

theorem coversAll_iff {size : Nat} {listed : List (Nat × Float)} :
    Configuration.coversAll size listed = true ↔ ∀ cell < size, ∃ x, (cell, x) ∈ listed := by
  simp only [Configuration.coversAll, List.all_eq_true, List.any_eq_true, beq_iff_eq,
    List.mem_range, Prod.exists]
  refine forall₂_congr fun cell _ => ?_
  constructor
  · rintro ⟨_, x, hx, rfl⟩
    exact ⟨x, hx⟩
  · rintro ⟨x, hx⟩
    exact ⟨cell, x, hx, rfl⟩

/-! ## What is accepted -/

variable (setting vocabulary)

/-- Every key is `default` or names a cell, every value is a number, and no cell is left out: there is
a default, or all of them are listed, which does for a setting that is no learning rate. -/
structure AcceptsEntries (entries : List (Literal × Literal)) : Prop where
  named : ∀ entry ∈ entries, entry.1 ≠ .str Parameter.rest →
    ∃ cell, Names vocabulary setting.shape entry.1 cell
  number : ∀ entry ∈ entries, ∃ x, entry.2.asNumber? = some x
  covered : (∃ entry ∈ entries, entry.1 = .str Parameter.rest) ∨
    (setting = startV ∨ setting = utility ∨ setting = cost) ∧
      ∀ cell < setting.size vocabulary, ∃ entry ∈ entries, entry.1 ≠ .str Parameter.rest ∧
        Names vocabulary setting.shape entry.1 cell

/-- The values that a setting can be given, none of them among these. -/
def Accepts : Option Literal → Prop
  | none => True
  | some (.int _) => True
  | some (.float _) => True
  | some (.dict entries) => setting.AcceptsEntries vocabulary entries
  | some _ => False

/-- The number of a cell under a value that a setting is given. -/
inductive Fills : Option Literal → Nat → Float → Prop where
  | absent (cell : Nat) : Fills none cell setting.fallback
  | number {value : Literal} {x : Float} (hvalue : value.asNumber? = some x) (cell : Nat) :
    Fills (some value) cell x
  | listed {entries : List (Literal × Literal)} {entry : Literal × Literal} {cell : Nat} {x : Float}
    (hentry : entry ∈ entries) (hkey : entry.1 ≠ .str Parameter.rest)
    (hnames : Names vocabulary setting.shape entry.1 cell) (hvalue : entry.2.asNumber? = some x) :
    Fills (some (.dict entries)) cell x
  | rest {entries : List (Literal × Literal)} {entry : Literal × Literal} {cell : Nat} {x : Float}
    (hunlisted : ∀ other ∈ entries, other.1 ≠ .str Parameter.rest →
      ¬Names vocabulary setting.shape other.1 cell)
    (hentry : entry ∈ entries) (hkey : entry.1 = .str Parameter.rest)
    (hvalue : entry.2.asNumber? = some x) : Fills (some (.dict entries)) cell x

variable {setting vocabulary} {entries entries' : List (Literal × Literal)}

theorem AcceptsEntries.perm (h : setting.AcceptsEntries vocabulary entries)
    (hperm : entries.Perm entries') : setting.AcceptsEntries vocabulary entries' where
  named entry hentry := h.named entry (hperm.mem_iff.2 hentry)
  number entry hentry := h.number entry (hperm.mem_iff.2 hentry)
  covered := by simpa only [hperm.mem_iff] using h.covered

theorem Fills.perm (hperm : entries.Perm entries') {x : Float}
    (h : setting.Fills vocabulary (some (.dict entries)) cell x) :
    setting.Fills vocabulary (some (.dict entries')) cell x := by
  cases h with
  | number hvalue => cases hvalue
  | listed hentry hkey hnames hvalue =>
    exact .listed (hperm.mem_iff.1 hentry) hkey hnames hvalue
  | rest hunlisted hentry hkey hvalue =>
    exact .rest (fun other hother => hunlisted other (hperm.mem_iff.2 hother))
      (hperm.mem_iff.1 hentry) hkey hvalue

theorem coverage_eq_defaultOrAll_iff :
    setting.coverage = .defaultOrAll ↔ setting = startV ∨ setting = utility ∨ setting = cost := by
  cases setting <;> decide

/-- A cell has one number. -/
theorem Fills.unique {given : Option Literal}
    (hkeys : ∀ entries, given = some (.dict entries) → KeysDiffer entries) {x y : Float}
    (hx : setting.Fills vocabulary given cell x) (hy : setting.Fills vocabulary given cell y) :
    x = y := by
  cases hx with
  | absent =>
    cases hy with
    | absent => rfl
  | number hvalue =>
    cases hy with
    | number hvalue' => exact Option.some.inj (hvalue.symm.trans hvalue')
    | listed => cases hvalue
    | rest => cases hvalue
  | listed hentry hkey hnames hvalue =>
    cases hy with
    | number hvalue' => cases hvalue'
    | listed hentry' hkey' hnames' hvalue' =>
      obtain rfl := entry_eq (hkeys _ rfl) hentry hentry' hnames hnames'
      exact Option.some.inj (hvalue.symm.trans hvalue')
    | rest hunlisted' => exact absurd hnames (hunlisted' _ hentry hkey)
  | rest hunlisted hentry hkey hvalue =>
    cases hy with
    | number hvalue' => cases hvalue'
    | listed hentry' hkey' hnames' => exact absurd hnames' (hunlisted _ hentry' hkey')
    | rest _ hentry' hkey' hvalue' =>
      obtain rfl := (hkeys _ rfl).eq_of_str hentry hentry' hkey hkey'
      exact Option.some.inj (hvalue.symm.trans hvalue')

/-! ## What is expanded -/

section

variable (hvocabulary :
  Vocabulary.ofNames vocabulary.elements vocabulary.behaviors = .ok vocabulary)

include hvocabulary

theorem mem_listed_iff {listed : List (Nat × Float)}
    (h : Configuration.listedCells setting.parameter
      (setting.shape.slot vocabulary setting.parameter) ⟨entries⟩ = .ok listed) {x : Float} :
    (cell, x) ∈ listed ↔ ∃ entry ∈ entries, entry.1 ≠ .str Parameter.rest ∧
      Names vocabulary setting.shape entry.1 cell ∧ entry.2.asNumber? = some x := by
  simp only [mem_listedCells h, Shape.slot_eq_ok_iff hvocabulary]

theorem accepts_of_expand_dict (hkeys : KeysDiffer entries) {t : Table Float}
    (h : setting.expand vocabulary (some (.dict entries)) = .ok t) :
    setting.AcceptsEntries vocabulary entries := by
  obtain ⟨rest, listed, hrest, hlisted, hcovered, -⟩ := expand_dict_eq_ok_iff.1 h
  rw [tableDefault_eq_ok_iff hkeys] at hrest
  have hread := exists_listedCells_iff.1 ⟨listed, hlisted⟩
  simp only [Shape.slot_eq_ok_iff hvocabulary] at hread
  refine ⟨fun entry hentry hkey => (hread entry hentry hkey).1, ?_, ?_⟩
  · intro entry hentry
    by_cases hkey : entry.1 = .str Parameter.rest
    · obtain ⟨-, hnone⟩ | ⟨other, hother, hkey', x, hx, -⟩ := hrest
      · exact absurd hkey (hnone entry hentry)
      · obtain rfl := hkeys.eq_of_str hentry hother hkey hkey'
        exact ⟨x, hx⟩
    · exact (hread entry hentry hkey).2
  · obtain ⟨hnone, -⟩ | ⟨entry, hentry, hkey, -⟩ := hrest
    · obtain ⟨hcoverage, hall⟩ := hcovered hnone
      refine .inr ⟨coverage_eq_defaultOrAll_iff.1 hcoverage, fun cell hcell => ?_⟩
      obtain ⟨x, hx⟩ := coversAll_iff.1 hall cell hcell
      obtain ⟨entry, hentry, hkey, hnames, -⟩ := (mem_listed_iff hvocabulary hlisted).1 hx
      exact ⟨entry, hentry, hkey, hnames⟩
    · exact .inl ⟨entry, hentry, hkey⟩

theorem exists_expand_dict (hkeys : KeysDiffer entries)
    (h : setting.AcceptsEntries vocabulary entries) :
    ∃ t, setting.expand vocabulary (some (.dict entries)) = .ok t := by
  obtain ⟨listed, hlisted⟩ : ∃ listed, Configuration.listedCells setting.parameter
      (setting.shape.slot vocabulary setting.parameter) ⟨entries⟩ = .ok listed := by
    refine exists_listedCells_iff.2 fun entry hentry hkey => ⟨?_, h.number entry hentry⟩
    obtain ⟨cell, hcell⟩ := h.named entry hentry hkey
    exact ⟨cell, (Shape.slot_eq_ok_iff hvocabulary _).2 hcell⟩
  by_cases hdefault : ∃ entry ∈ entries, entry.1 = .str Parameter.rest
  · obtain ⟨entry, hentry, hkey⟩ := hdefault
    obtain ⟨x, hx⟩ := h.number entry hentry
    exact ⟨_, expand_dict_eq_ok_iff.2 ⟨some x, listed, (tableDefault_eq_ok_iff hkeys).2
      (.inr ⟨entry, hentry, hkey, x, hx, rfl⟩), hlisted, nofun, rfl⟩⟩
  · obtain ⟨hsetting, hall⟩ := h.covered.resolve_left hdefault
    have hnone : ∀ entry ∈ entries, entry.1 ≠ .str Parameter.rest :=
      fun entry hentry hkey => hdefault ⟨entry, hentry, hkey⟩
    have hcovers : Configuration.coversAll (setting.size vocabulary) listed = true := by
      refine coversAll_iff.2 fun cell hcell => ?_
      obtain ⟨entry, hentry, hkey, hnames⟩ := hall cell hcell
      obtain ⟨x, hx⟩ := h.number entry hentry
      exact ⟨x, (mem_listed_iff hvocabulary hlisted).2 ⟨entry, hentry, hkey, hnames, hx⟩⟩
    exact ⟨_, expand_dict_eq_ok_iff.2 ⟨none, listed, (tableDefault_eq_ok_iff hkeys).2
      (.inl ⟨rfl, hnone⟩), hlisted,
      fun _ => ⟨coverage_eq_defaultOrAll_iff.2 hsetting, hcovers⟩, rfl⟩⟩

/-- Every cell of the table of a dict holds its number. -/
theorem fills_of_expand_dict (hkeys : KeysDiffer entries) {t : Table Float}
    (h : setting.expand vocabulary (some (.dict entries)) = .ok t)
    (hcell : cell < setting.size vocabulary) :
    setting.Fills vocabulary (some (.dict entries)) cell (t.read cell) := by
  have haccepts := accepts_of_expand_dict hvocabulary hkeys h
  obtain ⟨rest, listed, hrest, hlisted, hcovered, rfl⟩ := expand_dict_eq_ok_iff.1 h
  have hmem {x : Float} : (cell, x) ∈ listed ↔ _ := mem_listed_iff hvocabulary hlisted
  have hfill : cell < (Table.fill (setting.size vocabulary) (rest.getD 0.0)).size := by
    rwa [Table.size_fill]
  -- a listed cell is written once with one number, and any other one never
  by_cases hin : ∃ x, (cell, x) ∈ listed
  · obtain ⟨x, hx⟩ := hin
    obtain ⟨entry, hentry, hkey, hnames, hvalue⟩ := hmem.1 hx
    have hread : (Configuration.assemble (setting.size vocabulary) (rest.getD 0.0) listed).read
        cell = x := by
      refine read_foldl_put hfill (fun y hy => ?_) (.inr ⟨x, hx⟩)
      obtain ⟨other, hother, -, hnames', hvalue'⟩ := hmem.1 hy
      obtain rfl := entry_eq hkeys hentry hother hnames hnames'
      exact Option.some.inj (hvalue'.symm.trans hvalue)
    rw [hread]
    exact .listed hentry hkey hnames hvalue
  · have hunlisted : ∀ other ∈ entries, other.1 ≠ .str Parameter.rest →
        ¬Names vocabulary setting.shape other.1 cell := by
      intro other hother hkey hnames
      obtain ⟨x, hx⟩ := haccepts.number other hother
      exact hin ⟨x, hmem.2 ⟨other, hother, hkey, hnames, hx⟩⟩
    have hread : (Configuration.assemble (setting.size vocabulary) (rest.getD 0.0) listed).read
        cell = rest.getD 0.0 := by
      refine read_foldl_put hfill (fun y hy => absurd ⟨y, hy⟩ hin) (.inl ?_)
      rw [Table.read_fill, if_pos hcell]
    obtain ⟨rfl, -⟩ | ⟨entry, hentry, hkey, x, hx, rfl⟩ := (tableDefault_eq_ok_iff hkeys).1 hrest
    · exact absurd (coversAll_iff.1 (hcovered rfl).2 cell hcell) hin
    · rw [hread]
      exact .rest hunlisted hentry hkey hx

end

/-- A number is in every cell. -/
theorem expand_number {value : Literal} {x : Float} (hvalue : value.asNumber? = some x) :
    setting.expand vocabulary (some value) = .ok (Table.fill (setting.size vocabulary) x) := by
  simp only [expand, Configuration.expand, hvalue]

/-- A dict that has only a default says what the number itself says. -/
theorem expand_rest {value : Literal} {x : Float} (hvalue : value.asNumber? = some x) :
    setting.expand vocabulary (some (.dict [(.str Parameter.rest, value)])) =
      .ok (Table.fill (setting.size vocabulary) x) := by
  have hrest : Configuration.tableDefault setting.parameter ⟨[(.str Parameter.rest, value)]⟩ =
      .ok (some x) :=
    (map_eq_ok (f := some)).2 ⟨x, tableNumber_eq_ok_iff.2 hvalue, rfl⟩
  exact expand_dict_eq_ok_iff.2 ⟨some x, [], hrest, rfl, nofun, rfl⟩

/-- The settings that are not given stand for the tables that are built in. -/
theorem expand_none :
    setting.expand vocabulary none = .ok (setting.tableOf (Configuration.default vocabulary)) := by
  cases setting <;> rfl

theorem size_of_expand {given : Option Literal} {t : Table Float}
    (h : setting.expand vocabulary given = .ok t) : t.size = setting.size vocabulary :=
  Configuration.size_of_expand h

section

variable {given : Option Literal}
  (hvocabulary : Vocabulary.ofNames vocabulary.elements vocabulary.behaviors = .ok vocabulary)
  (hkeys : ∀ entries, given = some (.dict entries) → KeysDiffer entries)

include hvocabulary hkeys

theorem exists_expand_iff :
    (∃ t, setting.expand vocabulary given = .ok t) ↔ setting.Accepts vocabulary given := by
  rcases given with _ | value
  · exact ⟨fun _ => trivial, fun _ => ⟨_, expand_none⟩⟩
  · cases value with
    | int | float => exact ⟨fun _ => trivial, fun _ => ⟨_, expand_number rfl⟩⟩
    | dict entries =>
      have hentries := hkeys entries rfl
      exact ⟨fun ⟨_, h⟩ => accepts_of_expand_dict hvocabulary hentries h,
        exists_expand_dict hvocabulary hentries⟩
    | null | bool | str | list | tuple => exact ⟨nofun, False.elim⟩

theorem fills_of_expand {t : Table Float} (h : setting.expand vocabulary given = .ok t)
    (hcell : cell < setting.size vocabulary) : setting.Fills vocabulary given cell (t.read cell) := by
  rcases given with _ | value
  · cases h
    rw [Table.read_fill, if_pos hcell]
    exact .absent cell
  · cases value with
    | int | float =>
      cases h
      rw [Table.read_fill, if_pos hcell]
      exact .number rfl cell
    | dict entries => exact fills_of_expand_dict hvocabulary (hkeys entries rfl) h hcell
    | null | bool | str | list | tuple => cases h

theorem read_eq_iff_fills {t : Table Float} (h : setting.expand vocabulary given = .ok t)
    (hcell : cell < setting.size vocabulary) {x : Float} :
    t.read cell = x ↔ setting.Fills vocabulary given cell x := by
  have hfills := fills_of_expand hvocabulary hkeys h hcell
  exact ⟨fun hx => hx ▸ hfills, hfills.unique hkeys⟩

end

/-- The order of the entries does not matter. -/
theorem expand_perm
    (hvocabulary : Vocabulary.ofNames vocabulary.elements vocabulary.behaviors = .ok vocabulary)
    (hkeys : KeysDiffer entries) (hperm : entries.Perm entries') {t : Table Float}
    (h : setting.expand vocabulary (some (.dict entries)) = .ok t) :
    setting.expand vocabulary (some (.dict entries')) = .ok t := by
  have hkeys' := hkeys.perm hperm
  obtain ⟨t', h'⟩ := exists_expand_dict hvocabulary hkeys'
    ((accepts_of_expand_dict hvocabulary hkeys h).perm hperm)
  have hsize : t'.size = t.size := (size_of_expand h').trans (size_of_expand h).symm
  rw [h', Table.ext_read hsize fun cell hcell => ?_]
  rw [size_of_expand h'] at hcell
  have hfills := (fills_of_expand_dict hvocabulary hkeys h hcell).perm hperm
  refine (fills_of_expand_dict hvocabulary hkeys' h' hcell).unique ?_ hfills
  rintro _ ⟨⟩
  exact hkeys'

/-- Whether one setting is given a number, or a dict that has this number as its default and nothing
else, all tables are the same. -/
theorem expand_given?_eq {p p' : Parameters} {value rest : Literal} {x : Float}
    (hvalue : value.asNumber? = some x) (hrest : rest.asNumber? = some x)
    (hp : setting.given? p = some value)
    (hp' : setting.given? p' = some (.dict [(.str Parameter.rest, rest)]))
    (hothers : ∀ name ∉ setting.names, p.get? name = p'.get? name) (other : TableSetting)
    (vocabulary : Vocabulary) :
    other.expand vocabulary (other.given? p) = other.expand vocabulary (other.given? p') := by
  by_cases hother : other = setting
  · rw [hother, hp, hp', expand_number hvalue, expand_rest hrest]
  · rw [given?_congr fun name hname => hothers name (not_mem_names hother hname)]

/-- A table is expanded if its setting is one of those that are accepted, and holds what the setting
says; in which order a dict says it does not matter, and neither does whether one number for all
cells is given as it is or as a default. -/
theorem expand_exact
    (hvocabulary : Vocabulary.ofNames vocabulary.elements vocabulary.behaviors = .ok vocabulary)
    (setting : TableSetting) :
    (∀ given, (∀ entries, given = some (.dict entries) → DistinctKeys entries) →
      ((∃ t, setting.expand vocabulary given = .ok t) ↔ setting.Accepts vocabulary given) ∧
      ∀ t, setting.expand vocabulary given = .ok t → t.size = setting.size vocabulary ∧
        ∀ cell < setting.size vocabulary, ∀ x,
          t.read cell = x ↔ setting.Fills vocabulary given cell x) ∧
    (∀ entries entries', DistinctKeys entries → entries.Perm entries' → ∀ t,
      setting.expand vocabulary (some (.dict entries)) = .ok t →
        setting.expand vocabulary (some (.dict entries')) = .ok t) ∧
    ∀ (p p' : Parameters) (value rest : Literal) (x : Float),
      value.asNumber? = some x → rest.asNumber? = some x → setting.given? p = some value →
      setting.given? p' = some (.dict [(.str Parameter.rest, rest)]) →
      (∀ name ∉ setting.names, p.get? name = p'.get? name) →
      Configuration.ofParameters p = Configuration.ofParameters p' ∧
      Mechanism.ofParameters p = Mechanism.ofParameters p' ∧
      ∀ m m', Mechanism.ofParameters p = .ok m → Mechanism.ofParameters p' = .ok m' →
        ∀ stimuli draws k, m.after m.start stimuli draws k = m'.after m'.start stimuli draws k ∧
          m.responseAt m.start stimuli draws k = m'.responseAt m'.start stimuli draws k := by
  refine ⟨fun given hdistinct => ?_, fun entries entries' hdistinct hperm t => ?_, ?_⟩
  · have hkeys : ∀ entries, given = some (.dict entries) → KeysDiffer entries :=
      fun entries h => (hdistinct entries h).keysDiffer
    refine ⟨exists_expand_iff hvocabulary hkeys, fun t h => ⟨size_of_expand h, ?_⟩⟩
    exact fun cell hcell x => read_eq_iff_fills hvocabulary hkeys h hcell
  · exact expand_perm hvocabulary hdistinct.keysDiffer hperm
  · intro p p' value rest x hvalue hrest hp hp' hothers
    have htables := expand_given?_eq hvalue hrest hp hp' hothers
    have hnames : ∀ name, (∀ other : TableSetting, name ∉ other.names) →
        p.get? name = p'.get? name := fun name hname => hothers name (hname setting)
    have hmechanism := Mechanism.ofParameters_eq_of_expand htables hnames
    refine ⟨Configuration.ofParameters_eq_of_expand htables hnames, hmechanism, ?_⟩
    intro m m' hm hm' stimuli draws k
    obtain rfl := Except.ok.inj (hm.symm.trans (hmechanism.trans hm'))
    exact ⟨rfl, rfl⟩

/-- One weight that differs from the others, which have a default. -/
def oneWeight : List (Literal × Literal) :=
  [(.tuple [.str "us", .str "press"], .int 2), (.str Parameter.rest, .float 0.5)]

/-- Settings of a mechanism, but for its weights. -/
def trialSettings : Parameters :=
  ⟨⟨[(.str Parameter.mechanism, .str "rescorla_wagner"),
    (.str Parameter.elements, .list [.str "cs", .str "us"]),
    (.str Parameter.behaviors, .list [.str "wait", .str "press"])]⟩⟩

/-- The last of four weights is listed, before the default or after it, and the others have the
default; a dict of learning rates needs one. -/
theorem expand_exact_oneWeight :
    (∃ t, startV.expand PhaseText.trialVocabulary (some (.dict oneWeight)) = .ok t ∧
      startV.expand PhaseText.trialVocabulary (some (.dict oneWeight.reverse)) = .ok t ∧
      t.read 3 = (2 : Int64).toFloat ∧ t.read 0 = 0.5) ∧
    (¬∃ t, alphaV.expand PhaseText.trialVocabulary (some (.dict [oneWeight[0]])) = .ok t) ∧
    Configuration.ofParameters (trialSettings.set Parameter.startV (.float 0.5)) =
      Configuration.ofParameters
        (trialSettings.set Parameter.startV (.dict [(.str Parameter.rest, .float 0.5)])) := by
  have hdeclared : Vocabulary.ofNames PhaseText.trialVocabulary.elements
      PhaseText.trialVocabulary.behaviors = .ok PhaseText.trialVocabulary := rfl
  obtain ⟨hexpand, hperm, hnumber⟩ := expand_exact hdeclared startV
  have hdistinct : DistinctKeys oneWeight := List.pairwise_pair.2 (Literal.same_str _ _)
  have hpress : Names PhaseText.trialVocabulary .pair oneWeight[0].1 3 :=
    .pair (e := 1) (b := 1) rfl rfl
  have hrest : oneWeight[1].1 = .str Parameter.rest := rfl
  have hkey : oneWeight[0].1 ≠ .str Parameter.rest := by simp [oneWeight]
  refine ⟨?_, ?_, ?_⟩
  · have hgiven : ∀ entries, some (Literal.dict oneWeight) = some (.dict entries) →
        DistinctKeys entries := by
      rintro _ ⟨⟩
      exact hdistinct
    obtain ⟨haccepts, hfills⟩ := hexpand _ hgiven
    obtain ⟨t, ht⟩ := haccepts.2 ⟨by
      simp only [oneWeight, List.forall_mem_cons]
      exact ⟨fun _ => ⟨3, hpress⟩, fun h => absurd rfl h, nofun⟩, by
      simp only [oneWeight, List.forall_mem_cons]
      exact ⟨⟨_, rfl⟩, ⟨_, rfl⟩, nofun⟩, .inl ⟨_, List.getElem_mem _, hrest⟩⟩
    obtain ⟨-, hcells⟩ := hfills t ht
    refine ⟨t, ht, hperm _ _ hdistinct oneWeight.reverse_perm.symm t ht, ?_, ?_⟩
    · exact (hcells 3 (by decide) _).2 (.listed (List.getElem_mem _) hkey hpress rfl)
    · refine (hcells 0 (by decide) _).2 (.rest ?_ (List.getElem_mem _) hrest rfl)
      simp only [oneWeight, List.forall_mem_cons]
      refine ⟨fun _ h => ?_, fun h => absurd rfl h, nofun⟩
      cases h.cell_eq hdeclared hpress
  · have hgiven : ∀ entries, some (Literal.dict [oneWeight[0]]) = some (.dict entries) →
        DistinctKeys entries := by
      rintro _ ⟨⟩
      exact List.pairwise_singleton _ _
    rw [((expand_exact hdeclared alphaV).1 _ hgiven).1]
    rintro ⟨-, -, ⟨entry, hentry, h⟩ | ⟨h, -⟩⟩
    · exact hkey ((List.mem_singleton.1 hentry) ▸ h)
    · rcases h with h | h | h <;> cases h
  · have hothers : ∀ name ∉ startV.names, (trialSettings.set Parameter.startV (.float 0.5)).get? name =
        (trialSettings.set Parameter.startV (.dict [(.str Parameter.rest, .float 0.5)])).get? name := by
      intro name hname
      have hne : Parameter.startV ≠ name := fun h => hname (h ▸ by decide)
      simp only [Parameters.set, Parameters.get?, Dict.get?_put, Literal.asText?, Option.some.injEq,
        if_neg hne]
    exact (hnumber _ _ _ _ _ rfl rfl rfl rfl hothers).1

end TableSetting

end Conditioning
