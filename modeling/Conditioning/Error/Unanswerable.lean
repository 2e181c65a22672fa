import Conditioning.Decimal.Numeral

/-!
# Unanswerable queries

The ways in which a query asks a record for something that it does not hold.
-/

namespace Conditioning

/-- What a query asks for in vain. -/
inductive Unanswerable where
  /-- There is no run at all. -/
  | noOutput
  /-- There is no run of that label. -/
  | unknownRun (label : String)
  /-- The run has no subject of that index. -/
  | subjectIndex (index subjects : Nat)
  /-- The run has no phase of that label. -/
  | unknownPhase (label : String)
  /-- The element is not declared. -/
  | unknownElement (name : String)
  /-- The behavior is not declared. -/
  | unknownBehavior (name : String)
  /-- The name is declared neither as an element nor as a behavior. -/
  | unknownName (name : String)
  /-- A sequence stands inside a sequence. -/
  | nestedPattern
  /-- The mechanism keeps no saliences. -/
  | noSalience

namespace Unanswerable

/-- The wording of an unanswerable query. -/
def message : Unanswerable → String
  | noOutput => "there is no simulation output"
  | unknownRun label => s!"unknown run label '{label}'"
  | subjectIndex index subjects =>
    "subject index " ++ Decimal.naturalText index ++ " out of range; the run has " ++
      Decimal.naturalText subjects ++ " subject(s)"
  | unknownPhase label => s!"phase '{label}' is not part of the run"
  | unknownElement name => s!"unknown stimulus element '{name}'"
  | unknownBehavior name => s!"unknown behavior '{name}'"
  | unknownName name => s!"'{name}' is neither a stimulus element nor a behavior"
  | nestedPattern => "nested sequence pattern"
  | noSalience => "w is only available for mechanisms with a salience table"

end Unanswerable

end Conditioning
