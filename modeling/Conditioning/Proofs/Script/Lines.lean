import Conditioning.Proofs.Script.Assembly
import Conditioning.Proofs.Text.Parts

/-!
# A script is what its clean lines say

The scan of a line stands outside quotes, inside quotes of a kind, inside them
behind a backslash, or behind a hash outside quotes (`Scan`).  What cleaning keeps
of a line is what the scan passes before such a hash (`Scan.kept`), so a part of a
line is kept on its own account, given where the scan stands before it
(`Scan.kept_append`).

A clean line has no comment, no tab and no blanks at its ends, so it is clean
already (`cleanLine_cleanLine`).  Lines of which nothing is left, and comments at
the end of lines, leave the clean lines of a script the same
(`cleanLines_of_annotates`), and a script is read from its clean lines alone.
-/

namespace Conditioning

/-! ## The scan of a line -/

/-- The two kinds of quotes. -/
inductive Quote where
  | single
  | double
deriving DecidableEq, Repr

/-- The character of a quote. -/
def Quote.mark : Quote → Char
  | single => '\''
  | double => '"'

/-- Where the scan of a line stands. -/
inductive Scan where
  | outside
  | inside (quote : Quote)
  /-- Inside quotes, behind a backslash. -/
  | escaped (quote : Quote)
  /-- Behind a hash outside quotes. -/
  | comment
deriving DecidableEq, Repr

namespace Scan

/-- The scan goes on by a character. -/
def next : Scan → Char → Scan
  | outside, c =>
    if c = '\'' then inside .single
    else if c = '"' then inside .double
    else if c = '#' then comment
    else outside
  | inside quote, c =>
    if c = '\\' then escaped quote
    else if c = quote.mark then outside
    else inside quote
  | escaped quote, _ => inside quote
  | comment, _ => comment

/-- The scan goes on by a text. -/
def run (scan : Scan) (cs : List Char) : Scan := cs.foldl next scan

/-- Whether the scan stands outside quotes or in a comment. -/
def IsOpen (scan : Scan) : Prop := scan = outside ∨ scan = comment

/-- What cleaning keeps of a text, the scan standing before it. -/
def kept : Scan → List Char → List Char
  | outside, cs => beforeComment none false cs
  | inside quote, cs => beforeComment (some quote.mark) false cs
  | escaped quote, cs => beforeComment (some quote.mark) true cs
  | comment, _ => []

variable {scan : Scan}

@[simp] theorem run_nil (scan : Scan) : scan.run [] = scan := rfl

@[simp] theorem run_cons (scan : Scan) (c : Char) (cs : List Char) :
    scan.run (c :: cs) = (scan.next c).run cs := rfl

theorem run_append (scan : Scan) (cs ds : List Char) :
    scan.run (cs ++ ds) = (scan.run cs).run ds :=
  List.foldl_append

@[simp] theorem run_comment (cs : List Char) : comment.run cs = comment := by
  induction cs with
  | nil => rfl
  | cons c cs ih => exact ih

@[simp] theorem kept_nil (scan : Scan) : scan.kept [] = [] := by
  cases scan <;> rfl

/-- A character is kept if it does not start a comment and is in none. -/
theorem kept_cons (scan : Scan) (c : Char) (cs : List Char) :
    scan.kept (c :: cs) = if scan.next c = comment then [] else c :: (scan.next c).kept cs := by
  cases scan with
  | outside =>
    by_cases hsingle : c = '\''
    · subst hsingle
      rfl
    by_cases hdouble : c = '"'
    · subst hdouble
      rfl
    by_cases hhash : c = '#'
    · subst hhash
      rfl
    simp [kept, beforeComment, next, hsingle, hdouble, hhash]
  | inside quote =>
    by_cases hbackslash : c = '\\'
    · simp [kept, beforeComment, next, hbackslash]
    by_cases hquote : c = quote.mark
    · simp [kept, beforeComment, next, hbackslash, ← hquote]
    simp [kept, beforeComment, next, hbackslash, hquote]
  | escaped quote => simp [kept, beforeComment, next]
  | comment => simp [kept, next]

/-- What is kept of a text does not depend on what follows. -/
theorem kept_append (scan : Scan) (cs ds : List Char) :
    scan.kept (cs ++ ds) = scan.kept cs ++ (scan.run cs).kept ds := by
  induction cs generalizing scan with
  | nil => simp
  | cons c cs ih =>
    rw [List.cons_append, kept_cons, kept_cons, run_cons]
    split
    next hcomment => simp [hcomment, kept]
    next => rw [ih, List.cons_append]

theorem kept_eq_self {cs : List Char} (h : scan.run cs ≠ comment) : scan.kept cs = cs := by
  induction cs generalizing scan with
  | nil => exact kept_nil scan
  | cons c cs ih =>
    have hnext : scan.next c ≠ comment := by
      intro hcomment
      rw [run_cons, hcomment, run_comment] at h
      exact h rfl
    rw [kept_cons, if_neg hnext, ih h]

/-- The scan is in no comment behind what is kept. -/
theorem run_kept_ne_comment (h : scan ≠ comment) (cs : List Char) :
    scan.run (scan.kept cs) ≠ comment := by
  induction cs generalizing scan with
  | nil => rwa [kept_nil]
  | cons c cs ih =>
    rw [kept_cons]
    split
    next => exact h
    next hnext => exact ih hnext

theorem kept_sublist (scan : Scan) (cs : List Char) : (scan.kept cs).Sublist cs := by
  induction cs generalizing scan with
  | nil => rw [kept_nil]
  | cons c cs ih =>
    rw [kept_cons]
    split
    next => exact List.nil_sublist _
    next => exact (ih _).cons_cons c

/-! ### Blanks and tabs -/

theorem next_tab (scan : Scan) : scan.next '\t' = scan.next ' ' := by
  match scan with
  | outside | inside .single | inside .double | escaped _ | comment => rfl

/-- Tabs are no different from spaces. -/
theorem run_withoutTabs (scan : Scan) (cs : List Char) :
    scan.run (withoutTabs cs) = scan.run cs := by
  induction cs generalizing scan with
  | nil => rfl
  | cons c cs ih =>
    show (scan.next (if c = '\t' then ' ' else c)).run (withoutTabs cs) = (scan.next c).run cs
    split
    next htab => rw [ih, htab, next_tab]
    next => exact ih _

theorem next_outside_of_isBlank {c : Char} (h : Text.isBlank c = true) :
    outside.next c = outside := by
  have hne (d : Char) (hd : Text.isBlank d = false) : c ≠ d := by
    rintro rfl
    rw [h] at hd
    cases hd
  rw [next, if_neg (hne '\'' rfl), if_neg (hne '"' rfl), if_neg (hne '#' rfl)]

theorem run_outside_of_blank {cs : List Char} (h : ∀ c ∈ cs, Text.isBlank c = true) :
    outside.run cs = outside := by
  induction cs with
  | nil => rfl
  | cons c cs ih =>
    rw [run_cons, next_outside_of_isBlank (h c List.mem_cons_self)]
    exact ih fun d hd => h d (List.mem_cons_of_mem c hd)

end Scan

/-! ## Clean lines -/

theorem withoutTabs_append (cs ds : List Char) :
    withoutTabs (cs ++ ds) = withoutTabs cs ++ withoutTabs ds :=
  List.map_append

theorem withoutTabs_eq_self {cs : List Char} (h : '\t' ∉ cs) : withoutTabs cs = cs := by
  have hid : ∀ c ∈ cs, (if c = '\t' then ' ' else c) = c :=
    fun c hc => if_neg (ne_of_mem_of_not_mem hc h)
  rw [withoutTabs, List.map_congr_left hid, List.map_id']

theorem tab_not_mem_withoutTabs (cs : List Char) : '\t' ∉ withoutTabs cs := by
  intro hmem
  obtain ⟨c, -, hc⟩ := List.mem_map.1 hmem
  split at hc
  next => cases hc
  next hne => exact hne hc

theorem blank_withoutTabs {cs : List Char} (h : ∀ c ∈ cs, Text.isBlank c = true) :
    ∀ c ∈ withoutTabs cs, Text.isBlank c = true := by
  intro c hc
  obtain ⟨d, hd, rfl⟩ := List.mem_map.1 hc
  split
  · rfl
  · exact h d hd

/-- What is left of a line in terms of its scan. -/
theorem cleanLine_eq (cs : List Char) :
    cleanLine cs = Text.trim (Scan.outside.kept (withoutTabs cs)) := rfl

theorem cleanLine_sublist (cs : List Char) : (cleanLine cs).Sublist (withoutTabs cs) :=
  (Text.trim_sublist _).trans (Scan.kept_sublist .outside _)

/-- A clean line is clean already. -/
theorem cleanLine_cleanLine (cs : List Char) : cleanLine (cleanLine cs) = cleanLine cs := by
  have htabs : withoutTabs (cleanLine cs) = cleanLine cs :=
    withoutTabs_eq_self fun htab => tab_not_mem_withoutTabs cs ((cleanLine_sublist cs).mem htab)
  have hkept : Scan.outside.kept (cleanLine cs) = cleanLine cs := by
    refine Scan.kept_eq_self fun hcomment => ?_
    obtain ⟨front, back, heq, hfront, -⟩ :=
      Text.exists_eq_trim (Scan.outside.kept (withoutTabs cs))
    rw [← cleanLine_eq] at heq
    -- blanks in front do not move the scan, and no text leads out of a comment
    have hnot : Scan.outside.run (Scan.outside.kept (withoutTabs cs)) ≠ .comment :=
      Scan.run_kept_ne_comment (by decide) _
    refine hnot ?_
    rw [heq, Scan.run_append, Scan.run_outside_of_blank hfront, Scan.run_append, hcomment,
      Scan.run_comment]
  rw [cleanLine_eq, htabs, hkept, cleanLine_eq, Text.trim_trim]

/-- Blanks in front of a line do not count. -/
theorem cleanLine_of_blank_append {blanks : List Char} (h : ∀ c ∈ blanks, Text.isBlank c = true)
    (cs : List Char) : cleanLine (blanks ++ cs) = cleanLine cs := by
  have hblanks := blank_withoutTabs h
  have hscan := Scan.run_outside_of_blank hblanks
  have hkept : Scan.outside.kept (withoutTabs blanks) = withoutTabs blanks :=
    Scan.kept_eq_self (by rw [hscan]; nofun)
  rw [cleanLine_eq, withoutTabs_append, Scan.kept_append, hscan, hkept,
    Text.trim_of_blank_append hblanks, ← cleanLine_eq]

/-- A hash outside quotes adds nothing, whatever follows it, and a carriage return at the end of a
line does not count. -/
theorem cleanLine_comment {line ending : List Char} (hopen : (Scan.outside.run line).IsOpen)
    (hending : ending = [] ∨ ending = ['\r']) (words : List Char) :
    cleanLine (line ++ '#' :: words ++ ending) = cleanLine (line ++ ending) := by
  have hblank : ∀ c ∈ withoutTabs ending, Text.isBlank c = true := by
    rcases hending with rfl | rfl <;> exact List.all_eq_true.1 rfl
  have hline : cleanLine (line ++ ending) = Text.trim (Scan.outside.kept (withoutTabs line)) := by
    rw [cleanLine_eq, withoutTabs_append, Scan.kept_append, Scan.run_withoutTabs]
    refine Text.trim_append_of_blank (fun c hc => hblank c ?_) _
    exact (Scan.kept_sublist _ _).mem hc
  have hcomment : (Scan.outside.run line).kept ('#' :: withoutTabs (words ++ ending)) = [] := by
    rcases hopen with hscan | hscan <;> rw [hscan] <;> rfl
  rw [hline, cleanLine_eq, List.append_assoc, withoutTabs_append, Scan.kept_append,
    Scan.run_withoutTabs]
  show Text.trim (_ ++ (Scan.outside.run line).kept ('#' :: withoutTabs (words ++ ending))) = _
  rw [hcomment, List.append_nil]

/-! ## The lines of a script -/

theorem newline_not_mem_cleanLine {cs : List Char} (h : '\n' ∉ cs) : '\n' ∉ cleanLine cs := by
  intro hmem
  obtain ⟨c, hc, he⟩ := List.mem_map.1 ((cleanLine_sublist cs).mem hmem)
  split at he
  next => cases he
  next => exact h (he ▸ hc)

/-- A text put together from lines is cleaned line by line. -/
theorem cleanLines_of_lines {lines : List (List Char)} (h : ∀ line ∈ lines, '\n' ∉ line) :
    cleanLines (['\n'].intercalate lines) =
      (lines.map cleanLine).filter fun line => !line.isEmpty := by
  cases lines with
  | nil => rfl
  | cons line lines => rw [cleanLines, Text.pieces_intercalate h]

theorem mem_cleanLines {cs line : List Char} (h : line ∈ cleanLines cs) :
    cleanLine line = line ∧ line.isEmpty = false ∧ '\n' ∉ line := by
  obtain ⟨hmem, hne⟩ := List.mem_filter.1 h
  obtain ⟨piece, hpiece, rfl⟩ := List.mem_map.1 hmem
  exact ⟨cleanLine_cleanLine piece, Bool.not_eq_eq_eq_not.1 hne,
    newline_not_mem_cleanLine (Text.not_mem_of_mem_pieces hpiece)⟩

/-- Cleaning clean lines changes nothing. -/
theorem cleanLines_cleanLines (cs : List Char) :
    cleanLines (['\n'].intercalate (cleanLines cs)) = cleanLines cs := by
  rw [cleanLines_of_lines fun line hline => (mem_cleanLines hline).2.2,
    List.map_congr_left fun line hline => (mem_cleanLines hline).1, List.map_id']
  refine List.filter_eq_self.2 fun line hline => ?_
  rw [(mem_cleanLines hline).2.1]
  rfl

/-! ## Annotated scripts -/

/-- The second lines are the first ones with more said beside them: lines that are blank or start
with a hash, and comments at the end of lines at which the scan is not inside quotes.  A carriage
return at the end of a line does not belong to it. -/
inductive Annotates : List (List Char) → List (List Char) → Prop where
  | nil : Annotates [] []
  | line {lines more : List (List Char)} (line : List Char) (rest : Annotates lines more) :
      Annotates (line :: lines) (line :: more)
  | blank {lines more : List (List Char)} {blanks : List Char}
      (hblanks : ∀ c ∈ blanks, Text.isBlank c = true) (rest : Annotates lines more) :
      Annotates lines (blanks :: more)
  | remark {lines more : List (List Char)} {blanks : List Char}
      (hblanks : ∀ c ∈ blanks, Text.isBlank c = true) (words : List Char)
      (rest : Annotates lines more) :
      Annotates lines ((blanks ++ '#' :: words) :: more)
  | comment {lines more : List (List Char)} {line ending : List Char}
      (hopen : (Scan.outside.run line).IsOpen) (hending : ending = [] ∨ ending = ['\r'])
      (words : List Char) (rest : Annotates lines more) :
      Annotates ((line ++ ending) :: lines) ((line ++ '#' :: words ++ ending) :: more)

theorem cleanLines_of_annotates {lines more : List (List Char)} (h : Annotates lines more) :
    ((more.map cleanLine).filter fun line => !line.isEmpty) =
      (lines.map cleanLine).filter fun line => !line.isEmpty := by
  induction h with
  | nil => rfl
  | line line _ ih => rw [List.map_cons, List.map_cons, List.filter_cons, List.filter_cons, ih]
  | @blank _ _ blanks hblanks _ ih =>
    have hnil : cleanLine blanks = [] := by
      have := cleanLine_of_blank_append hblanks []
      rwa [List.append_nil] at this
    rw [List.map_cons, hnil]
    exact ih
  | remark hblanks words _ ih =>
    rw [List.map_cons, cleanLine_of_blank_append hblanks]
    exact ih
  | comment hopen hending words _ ih =>
    rw [List.map_cons, List.map_cons, cleanLine_comment hopen hending, List.filter_cons,
      List.filter_cons, ih]

namespace Script

/-- A script is what its clean lines say: cleaning them again changes nothing, and a text reads the
same, or is refused with the same error, however it is annotated. -/
theorem parse_of_annotates (text : String) :
    cleanLines (['\n'].intercalate (cleanLines text.toList)) = cleanLines text.toList ∧
    ∀ annotated : String,
      Annotates (Text.pieces '\n' text.toList) (Text.pieces '\n' annotated.toList) →
      Script.parse annotated = Script.parse text := by
  refine ⟨cleanLines_cleanLines text.toList, fun annotated h => ?_⟩
  have hlines : cleanLines annotated.toList = cleanLines text.toList := cleanLines_of_annotates h
  rw [parse, parse, hlines]

/-- Two comments with a hash in quotes, and one whose quotes are not closed. -/
def remarks : String := "@comment the 'a#b' line\r\n@comment it's # open"

/-- The lines of `remarks` with more said beside them. -/
def annotatedRemarks : String :=
  " \t\r\n@comment the 'a#b' line# more 'words\r\n  # a remark\n@comment it's # open\n"

/-- The hash in quotes belongs to the line, the one behind it does not. -/
theorem parse_of_annotates_remarks :
    Annotates (Text.pieces '\n' remarks.toList) (Text.pieces '\n' annotatedRemarks.toList) ∧
      Script.parse annotatedRemarks = Script.parse remarks ∧
      cleanLines annotatedRemarks.toList =
        ["@comment the 'a#b' line".toList, "@comment it's # open".toList] := by
  have hremarks : Text.pieces '\n' remarks.toList =
      ["@comment the 'a#b' line".toList ++ ['\r'], "@comment it's # open".toList] := by
    decide +kernel
  have hannotated : Text.pieces '\n' annotatedRemarks.toList =
      [" \t\r".toList,
        "@comment the 'a#b' line".toList ++ '#' :: " more 'words".toList ++ ['\r'],
        "  ".toList ++ '#' :: " a remark".toList, "@comment it's # open".toList, []] := by
    decide +kernel
  have h : Annotates (Text.pieces '\n' remarks.toList)
      (Text.pieces '\n' annotatedRemarks.toList) := by
    rw [hremarks, hannotated]
    exact .blank (List.all_eq_true.1 rfl) <| .comment (.inl rfl) (.inr rfl) _ <|
      .remark (List.all_eq_true.1 rfl) _ <| .line _ <| .blank (List.all_eq_true.1 rfl) .nil
  exact ⟨h, (parse_of_annotates remarks).2 annotatedRemarks h, by decide +kernel⟩

end Script

end Conditioning
