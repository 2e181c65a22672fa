import Conditioning.Proofs.Phase.Spelling

/-!
# Drafts

A draft is a phase as it is written, with names where a phase has numbers.  It
may name elements, behaviors and lines that do not exist, so not every draft is
the draft of a phase.  A name that has to be declared elsewhere is a
*reference*, and `PhaseDraft.references` lists the references of a draft in the
order in which they are written.

A draft without other faults (`PhaseDraft.Faultless`) could be compiled if only
all of its references were declared.

How a draft may be written is said with the relations for phases
(`PhaseText.GuardText` and the others).  They relate names to their numbers in a
vocabulary, which for a part of a draft is one that has no names but those of the
part.  The names of a draft can be told from numbers and from the signs around
them, as identifiers can.
-/

namespace Conditioning

/-! ## References -/

/-- A name that has to be declared elsewhere. -/
inductive Reference where
  /-- An element that is shown. -/
  | element (name : String)
  /-- The behavior that a guard asks for. -/
  | behavior (name : String)
  /-- The line to which an edge with a probability leads. -/
  | target (label : String)
  /-- The line to which the only edge of a condition leads, its probability not being given. -/
  | bareTarget (label : String)
  /-- What an end condition counts. -/
  | key (name : String)
deriving DecidableEq, Repr

namespace Reference

/-- The name. -/
def name : Reference → String
  | element name => name
  | behavior name => name
  | target label => label
  | bareTarget label => label
  | key name => name

/-- Whether the name is one of a vocabulary, or of the labels of lines. -/
def isDeclared (vocabulary : Vocabulary) (labels : List String) : Reference → Bool
  | element name => vocabulary.elements.contains name
  | behavior name => vocabulary.behaviors.contains name
  | target label => labels.contains label
  | bareTarget label => labels.contains label
  | key name => labels.contains name || vocabulary.elements.contains name ||
      vocabulary.behaviors.contains name

/-- The errors with which a phase is refused because the name is not declared.  All of them say
the name but the one for a label without a probability, which is taken for an edge that is
written in the wrong way. -/
inductive Refused (phase : String) : Reference → Error → Prop where
  | element (name place : String) : Refused phase (element name) (.unknownElement name place)
  | behavior (name place : String) : Refused phase (behavior name) (.unknownBehavior name place)
  | target (label : String) : Refused phase (target label) (.unknownLine label phase)
  | bareTarget (label condition : String) :
    Refused phase (bareTarget label) (.malformed (.badEdge condition))
  | key (name : String) : Refused phase (key name) (.invalid (.endKey name phase))

/-- The stage of these errors. -/
def stage : Reference → Stage
  | bareTarget _ => .parse
  | _ => .validation

theorem Refused.stage_eq {phase : String} {reference : Reference} {error : Error}
    (h : reference.Refused phase error) : error.stage = reference.stage := by
  cases h <;> rfl

end Reference

/-! ## Parts of drafts -/

/-- Where a condition leads: to one line, or to lines with probabilities. -/
inductive Targets where
  | alone (label : String)
  | weighted (items : List (String × Float))

namespace Targets

def labels : Targets → List String
  | alone label => [label]
  | weighted items => items.map Prod.fst

def probabilities : Targets → List Float
  | alone _ => [1.0]
  | weighted items => items.map Prod.snd

def references : Targets → List Reference
  | alone label => [.bareTarget label]
  | weighted items => items.map fun item => .target item.1

end Targets

/-- A condition with names. -/
structure DraftCondition where
  /-- The response that is asked for, if one is. -/
  behavior : Option String
  /-- How often in succession, if that is asked for. -/
  count : Option Nat
  targets : Targets

namespace DraftCondition

variable (condition : DraftCondition)

/-- Whether there is no guard. -/
def isOpen : Bool := condition.behavior.isNone && condition.count.isNone

/-- The sum of the probabilities. -/
def rawMass : Float := (runningTotals 0.0 condition.targets.probabilities).getLast?.getD 0.0

/-- The references in order. -/
def references : List Reference :=
  condition.behavior.toList.map Reference.behavior ++ condition.targets.references

end DraftCondition

/-- A line with names. -/
structure DraftLine where
  label : String
  /-- The elements that are shown. -/
  stimulus : List String
  conditions : List DraftCondition

/-- The references in order. -/
def DraftLine.references (line : DraftLine) : List Reference :=
  line.stimulus.map Reference.element ++ line.conditions.flatMap DraftCondition.references

/-- A phase with names. -/
structure PhaseDraft where
  lines : List DraftLine
  /-- What the end condition counts. -/
  key : String
  /-- The count that ends the phase. -/
  threshold : Nat

namespace PhaseDraft

variable (draft : PhaseDraft)

/-- The labels of the lines. -/
def labels : List String := draft.lines.map DraftLine.label

/-- The references in order. -/
def references : List Reference := draft.lines.flatMap DraftLine.references ++ [.key draft.key]

/-- The first reference that is not declared. -/
def undeclared? (vocabulary : Vocabulary) : Option Reference :=
  draft.references.find? fun reference => !reference.isDeclared vocabulary draft.labels

/-- Nothing is wrong with a draft, except that references may not be declared. -/
structure Faultless (vocabulary : Vocabulary) : Prop where
  lines_ne_nil : draft.lines ≠ []
  labels_nodup : draft.labels.Nodup
  labels_fresh : ∀ label ∈ draft.labels, label ∉ vocabulary.elements ∧ label ∉ vocabulary.behaviors
  targets_nodup : ∀ line ∈ draft.lines, ∀ condition ∈ line.conditions,
    condition.targets.labels.Nodup
  rawMass_le : ∀ line ∈ draft.lines, ∀ condition ∈ line.conditions,
    condition.rawMass ≤ 1.0 + roundingSlack
  le_rawMass : ∀ line ∈ draft.lines, ∀ last, line.conditions.getLast? = some last →
    last.isOpen = true → 1.0 - roundingSlack ≤ last.rawMass

end PhaseDraft

/-! ## How a draft may be written -/

namespace PhaseText

open Text (IsGap beside Separated)

/-- A behavior, a count, or both. -/
structure DraftGuardText (cs : List Char) (behavior : Option String) (count : Option Nat) :
    Prop where
  isName : ∀ name ∈ behavior.toList, IsName name
  text : GuardText ⟨[], behavior.toList⟩ cs ⟨behavior.map fun _ => 0, count⟩

/-- A label with a probability in parentheses. -/
structure DraftEdgeText (cs : List Char) (item : String × Float) : Prop where
  isName : IsName item.1
  text : EdgeText [item.1] cs ⟨item.2, 0⟩

/-- One label, or labels with probabilities. -/
inductive TargetsText : List Char → Targets → Prop where
  | alone {label : String} (hlabel : IsName label) : TargetsText label.toList (.alone label)
  | weighted {cs : List Char} {items : List (String × Float)}
      (h : Separated ',' DraftEdgeText cs items) : TargetsText cs (.weighted items)

/-- Targets with a guard or without. -/
inductive DraftConditionText : List Char → DraftCondition → Prop where
  | unguarded {cs : List Char} {targets : Targets} (htargets : TargetsText cs targets) :
    DraftConditionText cs ⟨none, none, targets⟩
  | guarded {cs ds after before : List Char} {behavior : Option String} {count : Option Nat}
      {targets : Targets} (hguard : DraftGuardText cs behavior count) (hafter : IsGap after)
      (hbefore : IsGap before) (htargets : TargetsText ds targets) :
    DraftConditionText (beside ':' cs after before ds) ⟨behavior, count, targets⟩

/-- A label, a stimulus and conditions. -/
inductive DraftLineText : List Char → DraftLine → Prop where
  | mk {label : String} {names : List String} {conditions : List DraftCondition}
      {cs ds leading gap after before trailing : List Char} (hlabel : IsName label)
      (hnames : ∀ name ∈ names, IsName name) (hleading : IsGap leading) (hgap : IsGap gap)
      (hne : gap ≠ []) (hstimulus : StimulusText cs names) (hafter : IsGap after)
      (hbefore : IsGap before) (hconditions : Separated '|' DraftConditionText ds conditions)
      (htrailing : IsGap trailing) :
    DraftLineText (leading ++ (label.toList ++ (gap ++ beside '|' cs after before ds) ++ trailing))
      ⟨label, names, conditions⟩

/-- A name and a count. -/
structure DraftEndText (cs : List Char) (key : String) (threshold : Nat) : Prop where
  isName : IsName key
  text : EndText ⟨[key], []⟩ [] cs ⟨.element 0, threshold⟩

/-- The text is one of the ways to write the draft. -/
structure Writes (text : PhaseText) (draft : PhaseDraft) : Prop where
  rows : List.Forall₂ (fun row line => DraftLineText row.toList line) text.rows draft.lines
  ending : DraftEndText text.ending.toList draft.key draft.threshold

end PhaseText

end Conditioning
