import Conditioning.Error.Invalid
import Conditioning.Error.Malformed
import Conditioning.Error.Unanswerable
import Conditioning.Literal.Reader

/-!
# Errors

Every error belongs to one of four stages: reading a script, checking it,
simulating it, and asking for its results.
-/

namespace Conditioning

/-- The stage at which an error arises. -/
inductive Stage where
  /-- The text has the wrong form. -/
  | parse
  /-- The text contradicts itself. -/
  | validation
  /-- The simulation cannot go on. -/
  | runtime
  /-- A query has no answer. -/
  | evaluation
deriving DecidableEq, Repr

/-- What can go wrong. -/
inductive Error where
  /-- A block starts with a word that is no keyword. -/
  | unknownKeyword (word : String)
  /-- A literal is refused. -/
  | literal (misread : Literal.Misread)
  /-- Two runs have one label. -/
  | duplicateRunLabel (label : String)
  /-- A phase does not say when it ends. -/
  | missingEnd (phase : String)
  /-- A text has the wrong form. -/
  | malformed (cause : Malformed)
  /-- A parameter without a default is missing. -/
  | missingParameter (parameter : String)
  /-- An element is not declared. -/
  | unknownElement (name place : String)
  /-- A behavior is not declared. -/
  | unknownBehavior (name place : String)
  /-- An edge leads to no line. -/
  | unknownLine (label phase : String)
  /-- A run names no phase. -/
  | unknownPhase (label : String)
  /-- There is no such mechanism. -/
  | unknownMechanism (name : String)
  /-- Settings are inconsistent. -/
  | invalid (cause : Invalid)
  /-- No condition of a line leads on. -/
  | noConditionMet (phase line response : String)
  /-- A query has no answer. -/
  | unanswerable (cause : Unanswerable)

namespace Error

/-- The stage of an error. -/
def stage : Error → Stage
  | unknownKeyword _ => .parse
  | literal _ => .parse
  | duplicateRunLabel _ => .parse
  | missingEnd _ => .parse
  | malformed _ => .parse
  | missingParameter _ => .validation
  | unknownElement _ _ => .validation
  | unknownBehavior _ _ => .validation
  | unknownLine _ _ => .validation
  | unknownPhase _ => .validation
  | unknownMechanism _ => .validation
  | invalid _ => .validation
  | noConditionMet _ _ _ => .runtime
  | unanswerable _ => .evaluation

/-- The wording of an error. -/
def message : Error → String
  | unknownKeyword word => s!"unknown keyword '{word}'"
  | literal misread =>
    "invalid literal at offset " ++ Decimal.naturalText misread.offset ++
      s!" in '{misread.input}': {misread.reason.message}"
  | duplicateRunLabel label => s!"run label '{label}' is duplicated"
  | missingEnd phase => s!"the property 'end' is required in @phase '{phase}'"
  | malformed cause => cause.message
  | missingParameter parameter => s!"the parameter '{parameter}' is required"
  | unknownElement name place => s!"unknown stimulus element '{name}' in {place}"
  | unknownBehavior name place => s!"unknown behavior '{name}' in {place}"
  | unknownLine label phase => s!"unknown line label '{label}' in phase '{phase}'"
  | unknownPhase label => s!"invalid phase label '{label}'"
  | unknownMechanism name => s!"unknown mechanism '{name}'"
  | invalid cause => cause.message
  | noConditionMet phase line response =>
    s!"no condition in line '{line}' of phase '{phase}' was met for response '{response}'"
  | unanswerable cause => cause.message

end Error

/-- Read a literal, a refusal being an error. -/
def readLiteral (text : String) : Except Error Literal :=
  (Literal.parse text).mapError Error.literal

/-- Read a dict, a refusal being an error. -/
def readDict (text : String) : Except Error Dict :=
  (Literal.parseDict text).mapError Error.literal

/-- Read a sequence of literals, a refusal being an error. -/
def readLiterals (text : String) : Except Error (List Literal) :=
  (Literal.parseSequence text).mapError Error.literal

end Conditioning
