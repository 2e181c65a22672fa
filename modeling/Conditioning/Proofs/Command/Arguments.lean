import Conditioning.Proofs.Literal.Spelling
import Conditioning.Proofs.Report.Complete

/-!
# The arguments of a run

The arguments of a run are a path and options on both sides of it (`RunLine`).  A path is
a word that has not the form of an option.  Each option is the word for a seed with a
number behind it, and the last one gives the seed.

These lines are accepted and no others (`runArguments_iff_runLine`).  Where the path
stands among the options does not matter, whatever their numbers are
(`runArguments_seedWords_cons`).
-/

namespace Conditioning

/-! ## Numbers of a seed -/

namespace Decimal

/-- Digits that stand for a number, a plus in front of them or not. -/
inductive Numeral : List Char → Nat → Prop where
  | bare {ds : List Char} (hne : ds ≠ []) (hdigits : ∀ c ∈ ds, isDigit c = true) :
    Numeral ds (value ds)
  | plus {ds : List Char} (hne : ds ≠ []) (hdigits : ∀ c ∈ ds, isDigit c = true) :
    Numeral ('+' :: ds) (value ds)

theorem takeDigits_eq_iff {cs ds : List Char} :
    takeDigits cs = (ds, []) ↔ cs = ds ∧ ∀ c ∈ ds, isDigit c = true := by
  constructor
  · intro h
    obtain ⟨htaken, hrest⟩ := Prod.mk.inj h
    have hdigits : ∀ c ∈ cs, isDigit c = true := List.dropWhile_eq_nil_iff.1 hrest
    obtain rfl : cs = ds := by rw [← htaken, List.takeWhile_eq_self_iff.2 hdigits]
    exact ⟨rfl, hdigits⟩
  · rintro ⟨rfl, hdigits⟩
    exact Literal.takeDigits_of_digits hdigits

theorem Numeral.ne_minus {text : List Char} {n : Nat} (h : Numeral text n) (rest : List Char) :
    text ≠ '-' :: rest := by
  rintro rfl
  cases h with
  | bare _ hdigits => cases hdigits '-' List.mem_cons_self

theorem Numeral.readInteger?_eq {text : List Char} {n : Nat} (h : Numeral text n) :
    readInteger? text = some (n : Int) := by
  cases h with
  | bare hne hdigits => exact Literal.readInteger?_of_digits hne hdigits
  | @plus ds hne hdigits =>
    obtain ⟨d, rest, rfl⟩ := List.exists_cons_of_ne_nil hne
    have htaken : takeDigits (takeSign ('+' :: d :: rest)).2 = (d :: rest, []) :=
      takeDigits_eq_iff.2 ⟨rfl, hdigits⟩
    simp only [readInteger?, htaken]
    rfl

theorem takeSign_of_ne_minus {text : List Char} (hminus : ∀ rest, text ≠ '-' :: rest) :
    ∃ ds, takeSign text = (false, ds) ∧ (text = ds ∨ text = '+' :: ds) := by
  rw [takeSign.eq_def]
  split
  next rest => exact ⟨rest, rfl, .inr rfl⟩
  next rest => exact absurd rfl (hminus rest)
  next => exact ⟨text, rfl, .inl rfl⟩

/-- An integer that is read from a text without a minus is that of a numeral. -/
theorem numeral_of_readInteger? {text : List Char} {n : Int} (h : readInteger? text = some n)
    (hminus : ∀ rest, text ≠ '-' :: rest) : Numeral text n.toNat := by
  obtain ⟨ds, hsign, htext⟩ := takeSign_of_ne_minus hminus
  rw [readInteger?, hsign] at h
  split at h
  next => cases h
  next taken hne htaken =>
    obtain ⟨rfl, hdigits⟩ := takeDigits_eq_iff.1 htaken
    cases h
    rcases htext with rfl | rfl
    · exact .bare hne hdigits
    · exact .plus hne hdigits
  next => cases h

/-- What is read are the numerals of the numbers below the bound. -/
theorem readBelow?_eq_some_iff {bound : Nat} {text : List Char} {n : Nat} :
    readBelow? bound text = some n ↔ Numeral text n ∧ n < bound := by
  rw [readBelow?.eq_def]
  split
  next rest => exact iff_of_false (Option.some_ne_none n).symm fun h => h.1.ne_minus rest rfl
  next hminus =>
    constructor
    · intro h
      split at h
      next i hread =>
        obtain ⟨hlt, hn⟩ := Option.ite_none_right_eq_some.1 h
        cases hn
        exact ⟨numeral_of_readInteger? hread hminus, hlt⟩
      next => cases h
    · rintro ⟨hnumeral, hlt⟩
      rw [hnumeral.readInteger?_eq]
      exact if_pos hlt

end Decimal

namespace Command

theorem seed?_eq_some_iff {word : String} {seed : UInt64} :
    seed? word = some seed ↔ Decimal.Numeral word.toList seed.toNat := by
  rw [seed?, Option.map_eq_some_iff]
  constructor
  · rintro ⟨n, hread, rfl⟩
    obtain ⟨hnumeral, hlt⟩ := Decimal.readBelow?_eq_some_iff.1 hread
    rwa [UInt64.toNat_ofNat_of_lt' hlt]
  · intro h
    exact ⟨seed.toNat, Decimal.readBelow?_eq_some_iff.2 ⟨h, seed.toNat_lt⟩, UInt64.ofNat_toNat⟩

theorem isOption_iff {word : String} : isOption word = true ↔ ['-', '-'] <+: word.toList := by
  rw [isOption]
  split
  next rest h =>
    rw [h]
    exact ⟨fun _ => ⟨rest, rfl⟩, fun _ => rfl⟩
  next h =>
    refine ⟨nofun, ?_⟩
    rintro ⟨rest, hrest⟩
    exact absurd hrest.symm (h rest)

theorem isOption_eq_false_iff {word : String} :
    isOption word = false ↔ ¬['-', '-'] <+: word.toList := by
  rw [← isOption_iff, Bool.not_eq_true]

/-! ## Options -/

/-- The words of options with given numbers. -/
def seedWords (numbers : List String) : List String :=
  numbers.flatMap fun number => ["--seed", number]

@[simp] theorem seedWords_nil : seedWords [] = [] := rfl

@[simp] theorem seedWords_cons (number : String) (numbers : List String) :
    seedWords (number :: numbers) = "--seed" :: number :: seedWords numbers := rfl

/-- The seed of options, if `seed` is that of those before them. -/
def lastSeed (seed : Option UInt64) (options : List (String × UInt64)) : Option UInt64 :=
  (options.getLast?.map Prod.snd).or seed

theorem lastSeed_cons (seed : Option UInt64) (option : String × UInt64)
    (options : List (String × UInt64)) :
    lastSeed seed (option :: options) = lastSeed (some option.2) options := by
  rw [lastSeed, lastSeed, List.getLast?_cons]
  cases options.getLast? <;> rfl

/-- Options whose numbers are numerals. -/
def Numbered (options : List (String × UInt64)) : Prop :=
  ∀ option ∈ options, Decimal.Numeral option.1.toList option.2.toNat

/-- The arguments of a run: a path with options on both sides of it, and the seed that they
give. -/
inductive RunLine : List String → String → Option UInt64 → Prop where
  | mk {path : String} {before after : List (String × UInt64)}
      (hpath : ¬['-', '-'] <+: path.toList) (hnumbered : Numbered (before ++ after)) :
    RunLine (seedWords (before.map Prod.fst) ++ path :: seedWords (after.map Prod.fst)) path
      ((before ++ after).getLast?.map Prod.snd)

/-! ## Reading arguments -/

section

variable {path : Option String} {seed : Option UInt64} {arguments : List String}

theorem runArguments_seed (number : String) :
    runArguments path seed ("--seed" :: number :: arguments) =
      match seed? number with
      | some seed => runArguments path (some seed) arguments
      | none => .error .badSeed := rfl

theorem runArguments_path {word : String} (hword : isOption word = false) :
    runArguments none seed (word :: arguments) = runArguments (some word) seed arguments := by
  have hne : word ≠ "--seed" := by
    rintro rfl
    cases hword
  rw [runArguments]
  · simp [hword]
  · exact fun h => absurd h hne
  · exact fun _ _ h => absurd h hne

/-- What is accepted are the options that are left, and the path if it is not found yet. -/
theorem runArguments_eq_ok {found : String × Option UInt64}
    (h : runArguments path seed arguments = .ok found) :
    ∃ before after, Numbered (before ++ after) ∧ found.2 = lastSeed seed (before ++ after) ∧
      (path = some found.1 ∧ arguments = seedWords ((before ++ after).map Prod.fst) ∨
        path = none ∧ isOption found.1 = false ∧
          arguments = seedWords (before.map Prod.fst) ++
            found.1 :: seedWords (after.map Prod.fst)) := by
  fun_induction runArguments path seed arguments with
  | case1 seed path =>
    cases h
    exact ⟨[], [], nofun, rfl, .inl ⟨rfl, rfl⟩⟩
  | case2 => cases h
  | case3 => cases h
  | case4 path seed number rest value hvalue ih =>
    obtain ⟨before, after, hnumbered, hseed, hform⟩ := ih h
    refine ⟨(number, value) :: before, after, ?_, ?_, ?_⟩
    · exact List.forall_mem_cons.2 ⟨seed?_eq_some_iff.1 hvalue, hnumbered⟩
    · rw [hseed, List.cons_append, lastSeed_cons]
    · rcases hform with ⟨hpath, rfl⟩ | ⟨hpath, hword, rfl⟩
      · exact .inl ⟨hpath, rfl⟩
      · exact .inr ⟨hpath, hword, rfl⟩
  | case5 => cases h
  | case6 path seed word rest _ _ hword ih =>
    obtain ⟨hnone, hoption⟩ : path = none ∧ isOption word = false := by simpa using hword
    obtain ⟨before, after, hnumbered, hseed, hform⟩ := ih h
    rcases hform with ⟨hpath, rfl⟩ | ⟨hpath, -⟩
    · cases Option.some.inj hpath
      exact ⟨[], before ++ after, hnumbered, hseed, .inr ⟨hnone, hoption, rfl⟩⟩
    · cases hpath
  | case7 => cases h

/-- Options are read to the end, and the last of them gives the seed. -/
theorem runArguments_seedWords_append {options : List (String × UInt64)}
    (hnumbered : Numbered options) :
    runArguments path seed (seedWords (options.map Prod.fst) ++ arguments) =
      runArguments path (lastSeed seed options) arguments := by
  induction options generalizing seed with
  | nil => rfl
  | cons option options ih =>
    obtain ⟨hoption, hoptions⟩ := List.forall_mem_cons.1 hnumbered
    rw [List.map_cons, seedWords_cons, List.cons_append, List.cons_append, runArguments_seed,
      seed?_eq_some_iff.2 hoption, lastSeed_cons]
    exact ih hoptions

/-- A path may stand before the options as well as among them. -/
theorem runArguments_seedWords_cons {word : String} (hword : isOption word = false)
    (before after : List String) :
    runArguments none seed (seedWords before ++ word :: seedWords after) =
      runArguments none seed (word :: seedWords (before ++ after)) := by
  rw [runArguments_path hword]
  induction before generalizing seed with
  | nil => exact runArguments_path hword
  | cons number before ih =>
    simp only [seedWords_cons, List.cons_append, runArguments_seed]
    split
    · exact ih
    · rfl

end

theorem runArguments_iff_runLine {arguments : List String} {path : String}
    {seed : Option UInt64} :
    runArguments none none arguments = .ok (path, seed) ↔ RunLine arguments path seed := by
  constructor
  · intro h
    obtain ⟨before, after, hnumbered, hseed, hform⟩ := runArguments_eq_ok h
    rcases hform with ⟨hpath, -⟩ | ⟨-, hword, rfl⟩
    · cases hpath
    · obtain rfl : seed = (before ++ after).getLast?.map Prod.snd := by
        rw [show seed = _ from hseed, lastSeed, Option.or_none]
      exact .mk (isOption_eq_false_iff.1 hword) hnumbered
  · intro h
    cases h with
    | @mk _ before after hpath hnumbered =>
      have hword := isOption_eq_false_iff.2 hpath
      calc
        _ = runArguments (some path) none (seedWords ((before ++ after).map Prod.fst)) := by
          rw [runArguments_seedWords_cons hword, runArguments_path hword, List.map_append]
        _ = runArguments (some path) (lastSeed none (before ++ after)) [] := by
          rw [← runArguments_seedWords_append hnumbered, List.append_nil]
        _ = .ok (path, (before ++ after).getLast?.map Prod.snd) := by
          rw [lastSeed, Option.or_none]
          rfl

/-! ## Replies -/

theorem status_answer_ne_two (budget : Nat) (path : String) (seed : Option UInt64)
    (file : Except FileFault ByteArray) : (answer budget (.run path seed) file).status ≠ 2 := by
  rcases answer_cases budget path seed file with ⟨words, hanswer, -⟩ | ⟨output, hanswer, -, -⟩
  · rw [hanswer]
    exact nofun
  · rw [hanswer]
    exact nofun

section

variable {arguments : List String} (budget : Nat) (file : Except FileFault ByteArray)

theorem respond_of_runLine {path : String} {seed : Option UInt64}
    (h : RunLine arguments path seed) :
    respond budget ("run" :: arguments) file = answer budget (.run path seed) file := by
  rw [respond, request, runArguments_iff_runLine.2 h]
  rfl

theorem respond_of_not_runLine (h : ¬∃ path seed, RunLine arguments path seed) :
    ∃ misuse, respond budget ("run" :: arguments) file = misuseReply misuse := by
  cases hread : runArguments none none arguments with
  | ok found => exact absurd ⟨found.1, found.2, runArguments_iff_runLine.1 hread⟩ h
  | error misuse =>
    refine ⟨misuse, ?_⟩
    rw [respond, request, hread]
    rfl

theorem status_respond_eq_two_iff :
    (respond budget ("run" :: arguments) file).status = 2 ↔
      ¬∃ path seed, RunLine arguments path seed := by
  constructor
  · rintro hstatus ⟨path, seed, h⟩
    rw [respond_of_runLine budget file h] at hstatus
    exact status_answer_ne_two budget path seed file hstatus
  · intro h
    obtain ⟨misuse, hreply⟩ := respond_of_not_runLine budget file h
    rw [hreply]
    rfl

end

/-- The arguments of a run are accepted, wherever the path stands, and all others are a misuse. -/
theorem run_arguments_exact (arguments : List String) :
    (∀ path seed,
      runArguments none none arguments = .ok (path, seed) ↔ RunLine arguments path seed) ∧
    (∀ budget file,
      (∀ path seed, RunLine arguments path seed →
        respond budget ("run" :: arguments) file = answer budget (.run path seed) file) ∧
      ((¬∃ path seed, RunLine arguments path seed) →
        ∃ misuse, respond budget ("run" :: arguments) file = misuseReply misuse) ∧
      ((respond budget ("run" :: arguments) file).status = 2 ↔
        ¬∃ path seed, RunLine arguments path seed)) ∧
    (∀ path seed before after, ¬['-', '-'] <+: path.toList →
      arguments = seedWords before ++ path :: seedWords after →
        runArguments none seed arguments =
          runArguments none seed (path :: seedWords (before ++ after))) := by
  refine ⟨fun path seed => runArguments_iff_runLine, fun budget file => ⟨?_, ?_, ?_⟩, ?_⟩
  · exact fun path seed => respond_of_runLine budget file
  · exact respond_of_not_runLine budget file
  · exact status_respond_eq_two_iff budget file
  · rintro path seed before after hpath rfl
    exact runArguments_seedWords_cons (isOption_eq_false_iff.2 hpath) before after

/-- A path between two seeds, the second of them with a plus; and an option that takes the path
for its number. -/
theorem run_arguments_exact_twoSeeds :
    RunLine ["--seed", "7", "script", "--seed", "+11"] "script" (some 11) ∧
      runArguments none none ["--seed", "7", "script", "--seed", "+11"] =
        .ok ("script", some 11) ∧
      runArguments none none ["--seed", "7", "script", "--seed", "+11"] =
        runArguments none none ["script", "--seed", "7", "--seed", "+11"] ∧
      (¬∃ path seed, RunLine ["--seed", "script"] path seed) ∧
      (respond 5 ["run", "--seed", "script"] (.error .missing)).status = 2 := by
  have hseven : Decimal.Numeral "7".toList 7 := .bare (by simp) (List.all_eq_true.1 rfl)
  have heleven : Decimal.Numeral "+11".toList 11 := .plus (by simp) (List.all_eq_true.1 rfl)
  have hpath : ¬['-', '-'] <+: "script".toList := isOption_eq_false_iff.1 rfl
  have hline : RunLine ["--seed", "7", "script", "--seed", "+11"] "script" (some 11) :=
    @RunLine.mk "script" [("7", 7)] [("+11", 11)] hpath
      (List.forall_mem_cons.2 ⟨hseven, List.forall_mem_cons.2 ⟨heleven, nofun⟩⟩)
  obtain ⟨haccepted, -, hmoved⟩ :=
    run_arguments_exact ["--seed", "7", "script", "--seed", "+11"]
  obtain ⟨hrefused, hreplies, -⟩ := run_arguments_exact ["--seed", "script"]
  have hnone : ¬∃ path seed, RunLine ["--seed", "script"] path seed := by
    rintro ⟨path, seed, h⟩
    cases (hrefused path seed).2 h
  exact ⟨hline, (haccepted _ _).2 hline, hmoved "script" none ["7"] ["+11"] hpath rfl, hnone,
    (hreplies 5 (.error .missing)).2.2.2 hnone⟩

end Command

end Conditioning
