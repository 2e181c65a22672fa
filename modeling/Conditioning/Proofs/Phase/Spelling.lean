import Conditioning.Phase.Text
import Conditioning.Proofs.Text.Parts

/-!
# How a phase may be written

The text of a phase, as a relation to the phase that it stands for.  There may
be gaps around every sign, but not inside names and numbers, and a gap has to
follow the label of a line.  Names may stand bare or in quotes; the names of a
tuple stand in quotes, as they are literals.

The relations say nothing of how a text is read.  A number has the value of the
double nearest to it if it is written with a point or a power of ten; otherwise
it is an integer, which has to fit 64 bits.
-/

namespace Conditioning

namespace PhaseText

open Text (IsGap beside Separated)

/-! ## Names -/

/-- The characters that separate or enclose the parts of a phase. -/
def isMark (c : Char) : Bool :=
  ['\'', '"', '\\', '|', ':', ',', '=', '(', ')'].contains c

/-- A name without blanks and marks that cannot be taken for a number. -/
structure IsName (name : String) : Prop where
  ne_nil : name.toList ≠ []
  not_blank : ∀ c ∈ name.toList, Text.isBlank c = false
  not_mark : ∀ c ∈ name.toList, isMark c = false
  begins : ∀ c ∈ name.toList.head?, Decimal.isDigit c = false ∧ c ≠ '+'

/-- A letter followed by letters, digits and underscores. -/
def isIdentifier (name : String) : Bool :=
  match name.toList with
  | [] => false
  | c :: cs => c.isAlpha && cs.all fun c => c.isAlphanum || c == '_'

/-- A name in quotes. -/
inductive QuotedName : List Char → String → Prop where
  | mk {quote : Char} (hquote : quote = '\'' ∨ quote = '"') (name : String) :
    QuotedName (quote :: (name.toList ++ [quote])) name

/-- A name, in quotes or not. -/
inductive NameText : List Char → String → Prop where
  | bare (name : String) : NameText name.toList name
  | quoted {cs : List Char} {name : String} (h : QuotedName cs name) : NameText cs name

/-! ## Numbers -/

/-- Digits, at least one of them. -/
structure IsDigits (ds : List Char) : Prop where
  ne_nil : ds ≠ []
  isDigit : ∀ c ∈ ds, Decimal.isDigit c = true

/-- The digits of a count. -/
structure CountText (ds : List Char) (n : Nat) : Prop where
  digits : IsDigits ds
  value : Decimal.value ds = n
  pos : 0 < n
  lt : n < 4294967296

/-- A power of ten. -/
inductive PowerText : List Char → Int → Prop where
  | unsigned {c : Char} {ds : List Char} (hc : c = 'e' ∨ c = 'E') (hds : IsDigits ds) :
    PowerText (c :: ds) (Decimal.value ds)
  | plus {c : Char} {ds : List Char} (hc : c = 'e' ∨ c = 'E') (hds : IsDigits ds) :
    PowerText (c :: '+' :: ds) (Decimal.value ds)
  | minus {c : Char} {ds : List Char} (hc : c = 'e' ∨ c = 'E') (hds : IsDigits ds) :
    PowerText (c :: '-' :: ds) (-(Decimal.value ds : Int))

/-- A power of ten, or nothing. -/
inductive OptionalPower : List Char → Int → Prop where
  | absent : OptionalPower [] 0
  | present {cs : List Char} {e : Int} (h : PowerText cs e) : OptionalPower cs e

/-- A number without a sign. -/
inductive NumberText : List Char → Float → Prop where
  | integer {ds : List Char} (hds : IsDigits ds)
      (hfits : (Decimal.value ds : Int) < Literal.integerBound) :
    NumberText ds (Int64.ofInt (Decimal.value ds)).toFloat
  | pointed {front back power : List Char} {e : Int} (hdigits : IsDigits (front ++ back))
      (hpower : OptionalPower power e) :
    NumberText (front ++ '.' :: (back ++ power))
      (Decimal.nearestDouble (Decimal.value (front ++ back)) (e - back.length))
  | powered {front power : List Char} {e : Int} (hfront : IsDigits front)
      (hpower : PowerText power e) :
    NumberText (front ++ power) (Decimal.nearestDouble (Decimal.value front) e)

/-- A number or a fraction. -/
inductive ProbabilityText : List Char → Float → Prop where
  | number {cs : List Char} {x : Float} (h : NumberText cs x) : ProbabilityText cs x
  | fraction {cs ds after before : List Char} {x y : Float} (hx : NumberText cs x)
      (hafter : IsGap after) (hbefore : IsGap before) (hy : NumberText ds y)
      (hne : (y == 0.0) = false) : ProbabilityText (beside '/' cs after before ds) (x / y)

/-! ## Guards -/

section

variable (vocabulary : Vocabulary) (labels : List String)

/-- A behavior, a count, or both. -/
inductive GuardText : List Char → Guard → Prop where
  | behavior {cs : List Char} {name : String} {b : BehaviorId} (hname : NameText cs name)
      (hbehavior : vocabulary.behaviors[b]? = some name) : GuardText cs ⟨some b, none⟩
  | count {ds : List Char} {n : Nat} (hcount : CountText ds n) : GuardText ds ⟨none, some n⟩
  | both {cs ds after before : List Char} {name : String} {b : BehaviorId} {n : Nat}
      (hname : NameText cs name) (hbehavior : vocabulary.behaviors[b]? = some name)
      (hafter : IsGap after) (hbefore : IsGap before) (hcount : CountText ds n) :
    GuardText (beside '=' cs after before ds) ⟨some b, some n⟩

/-! ## Conditions -/

/-- A label with a probability in parentheses. -/
inductive EdgeText : List Char → Edge → Prop where
  | mk {label : String} {target : Nat} {cs gap before after : List Char} {p : Float}
      (htarget : labels[target]? = some label) (hgap : IsGap gap) (hbefore : IsGap before)
      (hp : ProbabilityText cs p) (hunit : 0.0 ≤ p ∧ p ≤ 1.0) (hafter : IsGap after) :
    EdgeText (label.toList ++ (gap ++ '(' :: (before ++ (cs ++ after)) ++ [')'])) ⟨p, target⟩

/-- One label, or labels with probabilities. -/
inductive EdgesText : List Char → List Edge → Prop where
  | label {label : String} {target : Nat} (htarget : labels[target]? = some label) :
    EdgesText label.toList [⟨1.0, target⟩]
  | list {cs : List Char} {edges : List Edge} (h : Separated ',' (EdgeText labels) cs edges)
      (hdistinct : (edges.map Edge.target).Nodup) : EdgesText cs edges

/-- Edges with a guard or without. -/
inductive ConditionText : List Char → Condition → Prop where
  | unguarded {cs : List Char} {edges : List Edge} (hedges : EdgesText labels cs edges) :
    ConditionText cs ⟨⟨none, none⟩, edges⟩
  | guarded {cs ds after before : List Char} {guard : Guard} {edges : List Edge}
      (hguard : GuardText vocabulary cs guard) (hafter : IsGap after) (hbefore : IsGap before)
      (hedges : EdgesText labels ds edges) :
    ConditionText (beside ':' cs after before ds) ⟨guard, edges⟩

/-! ## Lines -/

/-- A name, or a tuple of names. -/
inductive StimulusText : List Char → List String → Prop where
  | name {cs : List Char} {name : String} (h : NameText cs name) : StimulusText cs [name]
  | tuple {cs before after : List Char} {names : List String}
      (hnames : Separated ',' QuotedName cs names) (hmany : 1 < names.length)
      (hbefore : IsGap before) (hafter : IsGap after) :
    StimulusText ('(' :: (before ++ (cs ++ after) ++ [')'])) names
  | tupleComma {cs before after last : List Char} {names : List String}
      (hnames : Separated ',' QuotedName cs names) (hbefore : IsGap before)
      (hafter : IsGap after) (hlast : IsGap last) :
    StimulusText ('(' :: (before ++ (cs ++ (after ++ ',' :: last)) ++ [')'])) names

/-- A label, a stimulus and conditions. -/
inductive LineText : List Char → Line → Prop where
  | mk {label : String} {names : List String} {elements : List ElementId}
      {conditions : List Condition} {cs ds leading gap after before trailing : List Char}
      (hleading : IsGap leading) (hgap : IsGap gap) (hne : gap ≠ [])
      (hstimulus : StimulusText cs names)
      (helements : List.Forall₂ (fun name e => vocabulary.elements[e]? = some name) names elements)
      (hafter : IsGap after) (hbefore : IsGap before)
      (hconditions : Separated '|' (ConditionText vocabulary labels) ds conditions)
      (htrailing : IsGap trailing) :
    LineText (leading ++ (label.toList ++ (gap ++ beside '|' cs after before ds) ++ trailing))
      ⟨label, ⟨elements⟩, conditions⟩

/-! ## Phases -/

/-- The name of what an end condition counts. -/
inductive KeyName : String → EndKey → Prop where
  | line {name : String} {i : Nat} (h : labels[i]? = some name) : KeyName name (.line i)
  | element {name : String} {e : ElementId} (h : vocabulary.elements[e]? = some name) :
    KeyName name (.element e)
  | behavior {name : String} {b : BehaviorId} (h : vocabulary.behaviors[b]? = some name) :
    KeyName name (.behavior b)

/-- A name and a count. -/
inductive EndText : List Char → EndCondition → Prop where
  | mk {cs ds leading after before trailing : List Char} {name : String} {key : EndKey} {n : Nat}
      (hleading : IsGap leading) (hname : NameText cs name)
      (hkey : KeyName vocabulary labels name key) (hafter : IsGap after) (hbefore : IsGap before)
      (hcount : CountText ds n) (htrailing : IsGap trailing) :
    EndText (leading ++ beside '=' cs after before ds ++ trailing) ⟨key, n⟩

end

/-- The text is one of the ways to write the phase. -/
structure Spells (text : PhaseText) (phase : Phase) : Prop where
  label_eq : text.label = phase.label
  rows : List.Forall₂ (fun row line =>
    LineText phase.vocabulary (phase.lines.map Line.label) row.toList line) text.rows phase.lines
  ending : EndText phase.vocabulary (phase.lines.map Line.label) text.ending.toList phase.ending

end PhaseText

/-! ## Phases that can be written -/

/-- A graph whose names can be told apart and whose probabilities are not more than one, and not
less where a line would be left without a next one. -/
structure Phase.IsGraph (phase : Phase) : Prop where
  lines_ne_nil : phase.lines ≠ []
  declared : Vocabulary.ofNames phase.vocabulary.elements phase.vocabulary.behaviors =
    .ok phase.vocabulary
  isName : ∀ name ∈ phase.vocabulary.elements ++ phase.vocabulary.behaviors ++
    phase.lines.map Line.label, PhaseText.IsName name
  labels_nodup : (phase.lines.map Line.label).Nodup
  labels_fresh : ∀ line ∈ phase.lines, line.label ∉ phase.vocabulary.elements ∧
    line.label ∉ phase.vocabulary.behaviors
  rawMass_le : ∀ line ∈ phase.lines, ∀ condition ∈ line.conditions,
    condition.rawMass ≤ 1.0 + roundingSlack
  le_rawMass : ∀ line ∈ phase.lines, ∀ last, line.conditions.getLast? = some last →
    last.guard.isOpen = true → 1.0 - roundingSlack ≤ last.rawMass

end Conditioning
