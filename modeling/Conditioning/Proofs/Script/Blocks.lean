import Conditioning.Proofs.Except
import Conditioning.Script.Block

/-!
# Cutting a script in two

A text that is cut at the end of a line is cleaned part by part: no quote and no
comment reaches over the end of a line.  If the second part starts with a block,
the blocks of the whole are those of the first part followed by those of the
second (`blocksOf_append`).  Otherwise its first lines would belong to the last
block of the first part.
-/

namespace Conditioning

theorem Text.pieces_append (separator : Char) (front back : List Char) :
    pieces separator (front ++ separator :: back) =
      pieces separator front ++ pieces separator back := by
  induction front with
  | nil => simp [pieces]
  | cons c cs ih =>
    by_cases hc : c = separator
    · rw [List.cons_append, pieces, if_pos hc, pieces, if_pos hc, ih]
      rfl
    · rw [List.cons_append, pieces, if_neg hc, pieces, if_neg hc, ih]
      cases hpieces : pieces separator cs with
      | nil => exact absurd hpieces (pieces_ne_nil separator cs)
      | cons piece rest => rfl

theorem cleanLines_append (front back : List Char) :
    cleanLines (front ++ '\n' :: back) = cleanLines front ++ cleanLines back := by
  rw [cleanLines, Text.pieces_append, List.map_append, List.filter_append]
  rfl

theorem cleanLines_newline (before after : String) :
    cleanLines (before ++ "\n" ++ after).toList =
      cleanLines before.toList ++ cleanLines after.toList := by
  rw [← cleanLines_append, String.toList_append, String.toList_append, List.append_assoc]
  rfl

/-- A script given by its lines is cleaned line by line. -/
theorem cleanLines_intercalate (line : String) (lines : List String) :
    cleanLines (String.intercalate "\n" (line :: lines)).toList =
      (line :: lines).flatMap fun line => cleanLines line.toList := by
  induction lines generalizing line with
  | nil =>
    show cleanLines line.toList = _
    rw [List.flatMap_singleton]
  | cons next lines ih =>
    show cleanLines (String.intercalate "\n" ((line ++ "\n" ++ next) :: lines)).toList = _
    rw [ih, List.flatMap_cons, cleanLines_newline, List.append_assoc]
    rfl

/-- Whether the first of some lines starts a block. -/
def LeadsBlock (lines : List (List Char)) : Prop :=
  ∃ first rest, lines = first :: rest ∧ startsBlock first = true

theorem blocksOf_nil : blocksOf [] = .ok [] := by rw [blocksOf]

theorem blocksOf_cons {first : List Char} {rest : List (List Char)} {block : Block}
    {blocks : List Block} (hfirst : startsBlock first = true)
    (hblock : makeBlock first (rest.takeWhile fun line => !startsBlock line) = .ok block)
    (hblocks : blocksOf (rest.dropWhile fun line => !startsBlock line) = .ok blocks) :
    blocksOf (first :: rest) = .ok (block :: blocks) := by
  rw [blocksOf, if_pos hfirst, hblock]
  simp only [hblocks]

section

variable {front back : List (List Char)}

/-- The body of a block ends where another block starts. -/
theorem takeWhile_append_of_leadsBlock (hback : LeadsBlock back) :
    (front ++ back).takeWhile (fun line => !startsBlock line) =
      front.takeWhile fun line => !startsBlock line := by
  obtain ⟨first, rest, rfl, hfirst⟩ := hback
  induction front with
  | nil => simp [hfirst]
  | cons line front ih => rw [List.cons_append, List.takeWhile_cons, List.takeWhile_cons, ih]

theorem dropWhile_append_of_leadsBlock (hback : LeadsBlock back) :
    (front ++ back).dropWhile (fun line => !startsBlock line) =
      (front.dropWhile fun line => !startsBlock line) ++ back := by
  obtain ⟨first, rest, rfl, hfirst⟩ := hback
  induction front with
  | nil => simp [hfirst]
  | cons line front ih =>
    rw [List.cons_append, List.dropWhile_cons, List.dropWhile_cons, ih]
    split <;> rfl

/-- The blocks of lines whose second part starts with a block are those of the two parts. -/
theorem blocksOf_append (hback : LeadsBlock back) :
    blocksOf (front ++ back) =
      blocksOf front >>= fun before => (blocksOf back).map fun after => before ++ after := by
  fun_induction blocksOf front with
  | case1 =>
    show blocksOf back = (blocksOf back).map fun after => [] ++ after
    cases blocksOf back <;> rfl
  | case2 first rest hfirst error hmake =>
    rw [List.cons_append, blocksOf, if_pos hfirst, takeWhile_append_of_leadsBlock hback, hmake]
    rfl
  | case3 first rest hfirst block hmake error herror ih =>
    rw [List.cons_append, blocksOf, if_pos hfirst, takeWhile_append_of_leadsBlock hback, hmake,
      dropWhile_append_of_leadsBlock hback]
    simp only [ih, herror]
    rfl
  | case4 first rest hfirst block hmake blocks hblocks ih =>
    rw [List.cons_append, blocksOf, if_pos hfirst, takeWhile_append_of_leadsBlock hback, hmake,
      dropWhile_append_of_leadsBlock hback]
    simp only [ih, hblocks]
    cases blocksOf back <;> rfl
  | case5 first rest hfirst =>
    rw [List.cons_append, blocksOf, if_neg hfirst]
    rfl

end

end Conditioning
