import Conditioning.Proofs.Except
import Conditioning.Proofs.Literal.RoundTrip
import Conditioning.Script.Directive

/-!
# The place of a subplot

A subplot is placed by three positive numbers: the integers of a tuple, or the decimal
digits of an integer (`Directive.Specifies`).  A specification that is not of this form is
refused, and of one that is the lower 32 bits of each number are kept
(`Directive.subplot_reduced`).  So the numbers are kept as they are written if they fit
into 32 bits, as digits do; a greater one is not refused but changed, and may even become
zero (`Directive.not_subplot_kept`).
-/

namespace Conditioning

/-! ## Three digits -/

namespace Decimal

theorem digits_of_three {a b c : Nat} (ha : 0 < a) (ha' : a < 10) (hb : b < 10) (hc : c < 10) :
    digits (100 * a + 10 * b + c) = [digitChar a, digitChar b, digitChar c] := by
  have hfront : digits (10 * a + b) = [digitChar a, digitChar b] := by
    rw [digits, if_neg (by omega), digits, if_pos (by omega)]
    have hdiv : (10 * a + b) / 10 = a := by omega
    have hmod : (10 * a + b) % 10 = b := by omega
    rw [hdiv, hmod]
    rfl
  have hdiv : (100 * a + 10 * b + c) / 10 = 10 * a + b := by omega
  have hmod : (100 * a + 10 * b + c) % 10 = c := by omega
  rw [digits, if_neg (by omega), hdiv, hmod, hfront]
  rfl

/-- The text of an integer is three digits just if these are its digits. -/
theorem integerText_eq_three_iff {n : Int} {a b c : Nat} (ha : 0 < a) (ha' : a < 10) (hb : b < 10)
    (hc : c < 10) :
    integerText n = String.ofList [digitChar a, digitChar b, digitChar c] ↔
      n = 100 * a + 10 * b + c := by
  constructor
  · intro h
    rw [integerText, String.ofList_inj] at h
    split at h
    next =>
      -- no digit is a minus
      have hminus : isDigit '-' = true := (List.cons.inj h).1 ▸ isDigit_digitChar a
      cases hminus
    next hpos =>
      have hvalue := congrArg value h
      rw [value_digits] at hvalue
      simp only [value, List.foldl_cons, List.foldl_nil, digitValue_digitChar ha',
        digitValue_digitChar hb, digitValue_digitChar hc] at hvalue
      omega
  · rintro rfl
    have habs : (100 * (a : Int) + 10 * b + c).natAbs = 100 * a + 10 * b + c := by omega
    rw [integerText, if_neg (by omega), habs, digits_of_three ha ha' hb hc]

end Decimal

namespace Directive

/-! ## Specifications -/

/-- Three positive numbers that a literal specifies: the integers of a tuple, or the decimal
digits of an integer. -/
inductive Specifies : Literal → Nat → Nat → Nat → Prop where
  | tuple {a b c : Int64} (ha : 0 < a.toInt) (hb : 0 < b.toInt) (hc : 0 < c.toInt) :
    Specifies (.tuple [.int a, .int b, .int c]) a.toInt.toNat b.toInt.toNat c.toInt.toNat
  | digits {n : Int64} {a b c : Nat} (ha : 0 < a ∧ a < 10) (hb : 0 < b ∧ b < 10)
      (hc : 0 < c ∧ c < 10)
      (htext : Decimal.integerText n.toInt =
        String.ofList [Decimal.digitChar a, Decimal.digitChar b, Decimal.digitChar c]) :
    Specifies (.int n) a b c

theorem Specifies.unique {place : Literal} {a b c a' b' c' : Nat} (h : Specifies place a b c)
    (h' : Specifies place a' b' c') : a = a' ∧ b = b' ∧ c = c' := by
  cases h with
  | tuple =>
    cases h'
    exact ⟨rfl, rfl, rfl⟩
  | digits ha hb hc htext =>
    cases h' with
    | digits ha' hb' hc' htext' =>
      have hn := (Decimal.integerText_eq_three_iff ha.1 ha.2 hb.2 hc.2).1 htext
      have hn' := (Decimal.integerText_eq_three_iff ha'.1 ha'.2 hb'.2 hc'.2).1 htext'
      omega

theorem Specifies.pos {place : Literal} {a b c : Nat} (h : Specifies place a b c) :
    0 < a ∧ 0 < b ∧ 0 < c := by
  cases h with
  | tuple ha hb hc => omega
  | digits ha hb hc => exact ⟨ha.1, hb.1, hc.1⟩

theorem positiveWord?_eq_some_iff {value : Literal} {word : UInt32} :
    positiveWord? value = some word ↔
      ∃ n : Int64, value = .int n ∧ 0 < n.toInt ∧ word = UInt32.ofNat n.toInt.toNat := by
  constructor
  · intro h
    cases value with
    | int n =>
      obtain ⟨hpos, hword⟩ := Option.ite_none_right_eq_some.1 h
      exact ⟨n, rfl, hpos, (Option.some.inj hword).symm⟩
    | _ => cases h
  · rintro ⟨n, rfl, hpos, rfl⟩
    exact if_pos hpos

theorem gridOfDigits?_eq_some_iff {n : Int} {grid : Grid} :
    gridOfDigits? n = some grid ↔
      ∃ a b c : Nat, (0 < a ∧ a < 10) ∧ (0 < b ∧ b < 10) ∧ (0 < c ∧ c < 10) ∧
        n = 100 * a + 10 * b + c ∧
        grid = ⟨UInt32.ofNat a, UInt32.ofNat b, UInt32.ofNat c⟩ := by
  rw [gridOfDigits?]
  constructor
  · intro h
    obtain ⟨hrange, h⟩ := Option.ite_none_right_eq_some.1 h
    obtain ⟨hzero, hgrid⟩ := Option.ite_none_left_eq_some.1 h
    refine ⟨n.toNat / 100, n.toNat / 10 % 10, n.toNat % 10, ?_, ?_, ?_, ?_,
      (Option.some.inj hgrid).symm⟩ <;> omega
  · rintro ⟨a, b, c, ha, hb, hc, rfl, rfl⟩
    have hnat : (100 * (a : Int) + 10 * b + c).toNat = 100 * a + 10 * b + c := by omega
    have hrows : (100 * a + 10 * b + c) / 100 = a := by omega
    have hcolumns : (100 * a + 10 * b + c) / 10 % 10 = b := by omega
    have hplace : (100 * a + 10 * b + c) % 10 = c := by omega
    rw [if_pos (by omega), hnat]
    simp only [hrows, hcolumns, hplace]
    exact if_neg (by omega)

/-- A place is given just by three positive numbers, of which the lower 32 bits count. -/
theorem gridOf?_eq_some_iff {place : Literal} {grid : Grid} :
    gridOf? place = some grid ↔
      ∃ a b c, Specifies place a b c ∧
        grid = ⟨UInt32.ofNat a, UInt32.ofNat b, UInt32.ofNat c⟩ := by
  constructor
  · intro h
    rw [gridOf?.eq_def] at h
    split at h
    next rows columns place =>
      obtain ⟨_, hrows, h⟩ := Option.bind_eq_some_iff.1 h
      obtain ⟨_, hcolumns, h⟩ := Option.bind_eq_some_iff.1 h
      obtain ⟨_, hplace, h⟩ := Option.bind_eq_some_iff.1 h
      obtain ⟨a, rfl, ha, rfl⟩ := positiveWord?_eq_some_iff.1 hrows
      obtain ⟨b, rfl, hb, rfl⟩ := positiveWord?_eq_some_iff.1 hcolumns
      obtain ⟨c, rfl, hc, rfl⟩ := positiveWord?_eq_some_iff.1 hplace
      exact ⟨_, _, _, .tuple ha hb hc, (Option.some.inj h).symm⟩
    next n =>
      obtain ⟨a, b, c, ha, hb, hc, hn, rfl⟩ := gridOfDigits?_eq_some_iff.1 h
      have htext := (Decimal.integerText_eq_three_iff ha.1 ha.2 hb.2 hc.2).2 hn
      exact ⟨a, b, c, .digits ha hb hc htext, rfl⟩
    next => cases h
  · rintro ⟨_, _, _, h, rfl⟩
    cases h with
    | tuple ha hb hc =>
      simp only [gridOf?, positiveWord?_eq_some_iff.2 ⟨_, rfl, ha, rfl⟩,
        positiveWord?_eq_some_iff.2 ⟨_, rfl, hb, rfl⟩,
        positiveWord?_eq_some_iff.2 ⟨_, rfl, hc, rfl⟩]
      rfl
    | digits ha hb hc htext =>
      have hn := (Decimal.integerText_eq_three_iff ha.1 ha.2 hb.2 hc.2).1 htext
      exact gridOfDigits?_eq_some_iff.2 ⟨_, _, _, ha, hb, hc, hn, rfl⟩

/-! ## Arguments -/

/-- The arguments of a subplot: its place, and properties that may be left out. -/
inductive SubplotArguments (text : String) (place : Literal) : Dict → Prop where
  | bare (h : Literal.parseSequence text = .ok [place]) : SubplotArguments text place Dict.empty
  | described {entries : List (Literal × Literal)}
      (h : Literal.parseSequence text = .ok [place, .dict entries]) :
    SubplotArguments text place ⟨entries⟩

theorem parse_of_arguments {text : String} {place : Literal} {properties : Dict}
    (h : SubplotArguments text place properties) :
    Directive.parse .subplot text = subplotAt .subplot place properties := by
  rcases h with h | h
  · rw [Directive.parse, h]
    rfl
  · rw [Directive.parse, h]
    rfl

/-- Whatever is accepted has the arguments of a subplot. -/
theorem exists_arguments_of_parse {text : String} {directive : Directive}
    (h : Directive.parse .subplot text = .ok directive) :
    ∃ place properties, SubplotArguments text place properties := by
  rw [Directive.parse] at h
  split at h
  next arguments hsequence =>
    rw [ofArguments, subplotOf.eq_def] at h
    split at h
    next place => exact ⟨place, _, .bare hsequence⟩
    next place properties =>
      obtain ⟨dict, hdict, -⟩ := bind_eq_ok.1 h
      cases properties with
      | dict entries => exact ⟨place, _, .described hsequence⟩
      | _ => cases hdict
    next => cases h
  next => cases h

theorem subplotAt_eq_ok_iff {place : Literal} {properties : Dict} {directive : Directive} :
    subplotAt .subplot place properties = .ok directive ↔
      ∃ grid, gridOf? place = some grid ∧ directive = .subplot grid properties := by
  rw [subplotAt]
  cases gridOf? place with
  | some grid => simp [eq_comm]
  | none => simp

/-! ## What is kept -/

/-- A place holds three numbers. -/
def Keeps (grid : Grid) (a b c : Nat) : Prop :=
  grid.rows.toNat = a ∧ grid.columns.toNat = b ∧ grid.place.toNat = c

theorem keeps_iff {grid : Grid} {a b c : Nat} :
    Keeps grid (a % 4294967296) (b % 4294967296) (c % 4294967296) ↔
      grid = ⟨UInt32.ofNat a, UInt32.ofNat b, UInt32.ofNat c⟩ := by
  have hword (word : UInt32) (n : Nat) :
      word.toNat = n % 4294967296 ↔ word = UInt32.ofNat n := by
    rw [← UInt32.toNat_inj, UInt32.toNat_ofNat']
  rw [Keeps, hword, hword, hword, Grid.mk.injEq]

/-- Numbers stay what they are just if none is too great. -/
theorem keeps_self_iff {grid : Grid} {a b c : Nat}
    (h : Keeps grid (a % 4294967296) (b % 4294967296) (c % 4294967296)) :
    Keeps grid a b c ↔ a < 4294967296 ∧ b < 4294967296 ∧ c < 4294967296 := by
  obtain ⟨hrows, hcolumns, hplace⟩ := h
  rw [Keeps, hrows, hcolumns, hplace]
  omega

theorem parse_eq_ok_iff {text : String} {place : Literal} {properties : Dict}
    (harguments : SubplotArguments text place properties) {directive : Directive} :
    Directive.parse .subplot text = .ok directive ↔
      ∃ a b c grid, Specifies place a b c ∧
        Keeps grid (a % 4294967296) (b % 4294967296) (c % 4294967296) ∧
        directive = .subplot grid properties := by
  rw [parse_of_arguments harguments, subplotAt_eq_ok_iff]
  constructor
  · rintro ⟨grid, hgrid, rfl⟩
    obtain ⟨a, b, c, hspecifies, hgrid⟩ := gridOf?_eq_some_iff.1 hgrid
    exact ⟨a, b, c, grid, hspecifies, keeps_iff.2 hgrid, rfl⟩
  · rintro ⟨a, b, c, grid, hspecifies, hkeeps, rfl⟩
    exact ⟨grid, gridOf?_eq_some_iff.2 ⟨a, b, c, hspecifies, keeps_iff.1 hkeeps⟩, rfl⟩

/-- Arguments in order are refused if they specify nothing. -/
theorem parse_eq_error {text : String} {place : Literal} {properties : Dict}
    (harguments : SubplotArguments text place properties)
    (hnone : ¬∃ a b c, Specifies place a b c) :
    Directive.parse .subplot text = .error (.malformed (.subplotForm .subplot)) := by
  rw [parse_of_arguments harguments, subplotAt]
  cases hgrid : gridOf? place with
  | some grid =>
    obtain ⟨a, b, c, hspecifies, -⟩ := gridOf?_eq_some_iff.1 hgrid
    exact absurd ⟨a, b, c, hspecifies⟩ hnone
  | none => rfl

/-- A subplot is accepted just if three positive numbers are specified, and it is refused for no
other reason once its arguments are in order.  Each number is kept modulo the 32 bits of a word,
so all three stay as they are written just if they fit. -/
theorem subplot_reduced (text : String) :
    (∀ directive, Directive.parse .subplot text = .ok directive ↔
      ∃ place properties a b c grid, SubplotArguments text place properties ∧
        Specifies place a b c ∧
        Keeps grid (a % 4294967296) (b % 4294967296) (c % 4294967296) ∧
        directive = .subplot grid properties) ∧
    (∀ place properties, SubplotArguments text place properties →
      (¬∃ a b c, Specifies place a b c) →
        Directive.parse .subplot text = .error (.malformed (.subplotForm .subplot))) ∧
    ∀ place properties grid a b c, SubplotArguments text place properties →
      Specifies place a b c → Directive.parse .subplot text = .ok (.subplot grid properties) →
        (Keeps grid a b c ↔ a < 4294967296 ∧ b < 4294967296 ∧ c < 4294967296) := by
  refine ⟨fun directive => ⟨fun h => ?_, ?_⟩, fun _ _ => parse_eq_error, ?_⟩
  · obtain ⟨place, properties, harguments⟩ := exists_arguments_of_parse h
    obtain ⟨a, b, c, grid, hrest⟩ := (parse_eq_ok_iff harguments).1 h
    exact ⟨place, properties, a, b, c, grid, harguments, hrest⟩
  · rintro ⟨place, properties, a, b, c, grid, harguments, hrest⟩
    exact (parse_eq_ok_iff harguments).2 ⟨a, b, c, grid, hrest⟩
  · intro place properties grid a b c harguments hspecifies h
    obtain ⟨a', b', c', _, hspecifies', hkeeps, hsubplot⟩ := (parse_eq_ok_iff harguments).1 h
    obtain ⟨rfl, rfl, rfl⟩ := hspecifies.unique hspecifies'
    cases hsubplot
    exact keeps_self_iff hkeeps

/-! ## A number of 33 bits -/

/-- The text of three integers in parentheses gives a subplot its place. -/
theorem subplotArguments_tuple {text : String} {a b c : Int64}
    (htext : (Literal.tuple [.int a, .int b, .int c]).toText = text) :
    SubplotArguments text (.tuple [.int a, .int b, .int c]) Dict.empty := by
  subst htext
  have hprintable : (Literal.tuple [.int a, .int b, .int c]).Printable :=
    ⟨trivial, trivial, trivial, trivial⟩
  exact .bare (Literal.parseSequence_of_reads
    (Literal.reads_iff.2 (Literal.hasValue_toText _ hprintable)) rfl)

theorem specifies_tall : Specifies (.tuple [.int 4294967297, .int 2, .int 3]) 4294967297 2 3 :=
  .tuple (by decide) (by decide) (by decide)

theorem subplotArguments_tall : SubplotArguments "(4294967297, 2, 3)"
    (.tuple [.int 4294967297, .int 2, .int 3]) Dict.empty :=
  subplotArguments_tuple (by decide +kernel)

/-- One of the numbers is too great, and one more than the greatest that fits becomes one. -/
theorem subplot_reduced_tall :
    Directive.parse .subplot "(4294967297, 2, 3)" = .ok (.subplot ⟨1, 2, 3⟩ Dict.empty) ∧
      ¬Keeps ⟨1, 2, 3⟩ 4294967297 2 3 := by
  obtain ⟨haccepted, -, hkept⟩ := subplot_reduced "(4294967297, 2, 3)"
  have hparse : Directive.parse .subplot "(4294967297, 2, 3)" =
      .ok (.subplot ⟨1, 2, 3⟩ Dict.empty) :=
    (haccepted _).2 ⟨_, _, _, _, _, ⟨1, 2, 3⟩, subplotArguments_tall, specifies_tall,
      ⟨rfl, rfl, rfl⟩, rfl⟩
  refine ⟨hparse, fun h => ?_⟩
  obtain ⟨hlt, -, -⟩ := (hkept _ _ _ _ _ _ subplotArguments_tall specifies_tall hparse).1 h
  exact absurd hlt (by decide)

/-- So a number may be accepted and changed, here to one that is not even positive. -/
theorem not_subplot_kept :
    ¬∀ text grid properties,
      Directive.parse .subplot text = .ok (.subplot grid properties) →
        ∃ place a b c, SubplotArguments text place properties ∧ Specifies place a b c ∧
          Keeps grid a b c := by
  intro h
  have harguments : SubplotArguments "(4294967296, 1, 1)"
      (.tuple [.int 4294967296, .int 1, .int 1]) Dict.empty :=
    subplotArguments_tuple (by decide +kernel)
  have hparse : Directive.parse .subplot "(4294967296, 1, 1)" =
      .ok (.subplot ⟨0, 1, 1⟩ Dict.empty) := by
    rw [parse_of_arguments harguments]
    rfl
  obtain ⟨place, a, b, c, -, hspecifies, hrows, -⟩ := h _ _ _ hparse
  have hzero : 0 = a := hrows
  exact absurd hspecifies.pos.1 (by omega)

end Directive

end Conditioning
