import Conditioning.Literal.Basic
import Conditioning.Proofs.Double.Order
import Mathlib.Data.String.Basic

/-!
# Sameness of literals

Keys of dicts are compared by `same`, which compares decimal numbers as numbers.  So
zero is the same as negative zero, no integer is the same as a decimal number, and a
decimal number that is no number is not the same as itself.  Sameness goes from one
literal to another and back (`same_comm`, `same_trans`), at every depth, and a literal
is the same as itself just if every decimal number in it is a number
(`same_self_iff`).
-/

namespace Conditioning.Literal

/-! ## Back and on -/

mutual

theorem same_comm (x y : Literal) : x.same y = y.same x := by
  match x with
  | null => cases y <;> rfl
  | bool a =>
    cases y with
    | bool b => exact Bool.beq_comm
    | _ => rfl
  | int a =>
    cases y with
    | int b => exact BEq.comm
    | _ => rfl
  | float a =>
    cases y with
    | float b => exact Double.beq_comm a b
    | _ => rfl
  | str a =>
    cases y with
    | str b => exact BEq.comm
    | _ => rfl
  | list xs =>
    cases y with
    | list ys => exact sameItems_comm xs ys
    | _ => rfl
  | tuple xs =>
    cases y with
    | tuple ys => exact sameItems_comm xs ys
    | _ => rfl
  | dict xs =>
    cases y with
    | dict ys => exact sameEntries_comm xs ys
    | _ => rfl
termination_by structural x

theorem sameItems_comm (xs ys : List Literal) : sameItems xs ys = sameItems ys xs := by
  match xs with
  | [] => cases ys <;> rfl
  | x :: xs =>
    cases ys with
    | nil => rfl
    | cons y ys => simp only [sameItems, same_comm x y, sameItems_comm xs ys]
termination_by structural xs

theorem sameEntries_comm (xs ys : List (Literal × Literal)) :
    sameEntries xs ys = sameEntries ys xs := by
  match xs with
  | [] => cases ys <;> rfl
  | (k, x) :: xs =>
    cases ys with
    | nil => rfl
    | cons entry ys =>
      simp only [sameEntries, same_comm k entry.1, same_comm x entry.2, sameEntries_comm xs ys]
termination_by structural xs

end

mutual

theorem same_trans {x y z : Literal} (hxy : x.same y = true) (hyz : y.same z = true) :
    x.same z = true := by
  match x with
  | null =>
    cases y with
    | null => exact hyz
    | _ => cases hxy
  | bool a =>
    cases y with
    | bool b => rwa [eq_of_beq hxy]
    | _ => cases hxy
  | int a =>
    cases y with
    | int b => rwa [eq_of_beq hxy]
    | _ => cases hxy
  | float a =>
    cases y with
    | float b =>
      cases z with
      | float c => exact Double.beq_trans hxy hyz
      | _ => cases hyz
    | _ => cases hxy
  | str a =>
    cases y with
    | str b => rwa [eq_of_beq hxy]
    | _ => cases hxy
  | list xs =>
    cases y with
    | list ys =>
      cases z with
      | list zs => exact @sameItems_trans xs ys zs hxy hyz
      | _ => cases hyz
    | _ => cases hxy
  | tuple xs =>
    cases y with
    | tuple ys =>
      cases z with
      | tuple zs => exact @sameItems_trans xs ys zs hxy hyz
      | _ => cases hyz
    | _ => cases hxy
  | dict xs =>
    cases y with
    | dict ys =>
      cases z with
      | dict zs => exact @sameEntries_trans xs ys zs hxy hyz
      | _ => cases hyz
    | _ => cases hxy
termination_by structural x

theorem sameItems_trans {xs ys zs : List Literal} (hxy : sameItems xs ys = true)
    (hyz : sameItems ys zs = true) : sameItems xs zs = true := by
  match xs with
  | [] =>
    cases ys with
    | nil => exact hyz
    | cons => cases hxy
  | x :: xs =>
    cases ys with
    | nil => cases hxy
    | cons y ys =>
      cases zs with
      | nil => cases hyz
      | cons z zs =>
        simp only [sameItems, Bool.and_eq_true] at hxy hyz ⊢
        exact ⟨same_trans hxy.1 hyz.1, sameItems_trans hxy.2 hyz.2⟩
termination_by structural xs

theorem sameEntries_trans {xs ys zs : List (Literal × Literal)} (hxy : sameEntries xs ys = true)
    (hyz : sameEntries ys zs = true) : sameEntries xs zs = true := by
  match xs with
  | [] =>
    cases ys with
    | nil => exact hyz
    | cons => cases hxy
  | (k, x) :: xs =>
    cases ys with
    | nil => cases hxy
    | cons entry ys =>
      cases zs with
      | nil => cases hyz
      | cons entry' zs =>
        simp only [sameEntries, Bool.and_eq_true] at hxy hyz ⊢
        exact ⟨⟨same_trans hxy.1.1 hyz.1.1, same_trans hxy.1.2 hyz.1.2⟩,
          sameEntries_trans hxy.2 hyz.2⟩
termination_by structural xs

end

/-! ## Themselves -/

/-- Every decimal number in a literal is a number. -/
inductive NaNFree : Literal → Prop where
  | null : NaNFree null
  | bool (value : Bool) : NaNFree (bool value)
  | int (value : Int64) : NaNFree (int value)
  | float {value : Float} (hvalue : value.isNaN = false) : NaNFree (float value)
  | str (text : String) : NaNFree (str text)
  | list {items : List Literal} (hitems : ∀ item ∈ items, NaNFree item) : NaNFree (list items)
  | tuple {items : List Literal} (hitems : ∀ item ∈ items, NaNFree item) : NaNFree (tuple items)
  | dict {entries : List (Literal × Literal)} (hkeys : ∀ entry ∈ entries, NaNFree entry.1)
    (hvalues : ∀ entry ∈ entries, NaNFree entry.2) : NaNFree (dict entries)

theorem sameItems_self {items : List Literal} (h : ∀ item ∈ items, item.same item = true) :
    sameItems items items = true := by
  induction items with
  | nil => rfl
  | cons item items ih =>
    obtain ⟨hitem, hitems⟩ := List.forall_mem_cons.1 h
    simp only [sameItems, hitem, ih hitems, Bool.and_self]

theorem sameEntries_self {entries : List (Literal × Literal)}
    (hkeys : ∀ entry ∈ entries, entry.1.same entry.1 = true)
    (hvalues : ∀ entry ∈ entries, entry.2.same entry.2 = true) :
    sameEntries entries entries = true := by
  induction entries with
  | nil => rfl
  | cons entry entries ih =>
    obtain ⟨hkey, hkeys⟩ := List.forall_mem_cons.1 hkeys
    obtain ⟨hvalue, hvalues⟩ := List.forall_mem_cons.1 hvalues
    simp only [sameEntries, hkey, hvalue, ih hkeys hvalues, Bool.and_self]

theorem NaNFree.same_self {x : Literal} (h : NaNFree x) : x.same x = true := by
  induction h with
  | null => rfl
  | bool value => exact beq_self_eq_true value
  | int value => exact beq_self_eq_true value
  | float hvalue => exact (Double.beq_self_iff _).2 hvalue
  | str text => exact beq_self_eq_true text
  | list _ ih => exact sameItems_self ih
  | tuple _ ih => exact sameItems_self ih
  | dict _ _ ihkeys ihvalues => exact sameEntries_self ihkeys ihvalues

mutual

theorem nanFree_of_same_self {x : Literal} (h : x.same x = true) : NaNFree x := by
  match x with
  | null => exact .null
  | bool value => exact .bool value
  | int value => exact .int value
  | float value => exact .float ((Double.beq_self_iff value).1 h)
  | str text => exact .str text
  | list items => exact .list (@nanFree_of_sameItems_self items h)
  | tuple items => exact .tuple (@nanFree_of_sameItems_self items h)
  | dict entries =>
    have hentries := @nanFree_of_sameEntries_self entries h
    exact .dict (fun entry hentry => (hentries entry hentry).1)
      (fun entry hentry => (hentries entry hentry).2)
termination_by structural x

theorem nanFree_of_sameItems_self {items : List Literal} (h : sameItems items items = true) :
    ∀ item ∈ items, NaNFree item := by
  match items with
  | [] => exact fun _ h => absurd h List.not_mem_nil
  | item :: items =>
    rw [sameItems, Bool.and_eq_true] at h
    exact List.forall_mem_cons.2 ⟨nanFree_of_same_self h.1, nanFree_of_sameItems_self h.2⟩
termination_by structural items

theorem nanFree_of_sameEntries_self {entries : List (Literal × Literal)}
    (h : sameEntries entries entries = true) :
    ∀ entry ∈ entries, NaNFree entry.1 ∧ NaNFree entry.2 := by
  match entries with
  | [] => exact fun _ h => absurd h List.not_mem_nil
  | (key, value) :: entries =>
    rw [sameEntries, Bool.and_eq_true, Bool.and_eq_true] at h
    obtain ⟨⟨hkey, hvalue⟩, hentries⟩ := h
    exact List.forall_mem_cons.2
      ⟨⟨nanFree_of_same_self hkey, nanFree_of_same_self hvalue⟩,
        nanFree_of_sameEntries_self hentries⟩
termination_by structural entries

end

/-- A literal is the same as itself just if it holds no decimal number that is no number. -/
theorem same_self_iff {x : Literal} : x.same x = true ↔ NaNFree x :=
  ⟨nanFree_of_same_self, NaNFree.same_self⟩

/-! ## Literals in place of each other -/

/-- What is the same as one of two literals that are the same is the same as the other. -/
theorem same_congr_right {y z : Literal} (h : y.same z = true) (x : Literal) :
    x.same y = x.same z := by
  rw [Bool.eq_iff_iff]
  exact ⟨fun hx => same_trans hx h, fun hx => same_trans hx ((same_comm z y).trans h)⟩

theorem same_congr_left {x y : Literal} (h : x.same y = true) (z : Literal) :
    x.same z = y.same z := by
  rw [same_comm x, same_comm y, same_congr_right h]

end Conditioning.Literal
