import Conditioning.Report.Basic

/-!
# The command line

The program shows its help, runs a script that it holds as an example, or runs
a script file.  A run prints one report and nothing else.  If anything fails
there is no report: a wrong command line ends with status two, a message and
the help, and a script that cannot be read, assembled, simulated or evaluated
ends with status one and a message.  The message of such a failure may hold any
part of a script, so characters that would steer a terminal are written out.

Everything but the reading of the file is here.
-/

namespace Conditioning

namespace Command

/-! ## Arguments -/

/-- What a command line is wrong about. -/
inductive Misuse where
  | demoArguments
  | unknownCommand (word : String)
  /-- The seed is missing or no number. -/
  | badSeed
  /-- An argument is out of place. -/
  | unexpectedArgument (word : String)
  | noPath
deriving DecidableEq, Repr

/-- The wording of a misuse. -/
def Misuse.message : Misuse → String
  | demoArguments => "demo takes no arguments"
  | unknownCommand word => "Unknown command: " ++ word
  | badSeed => "--seed expects a non-negative integer"
  | unexpectedArgument word => "Unexpected argument: " ++ word
  | noPath => "run expects a script path"

/-- What a command line asks for. -/
inductive Request where
  | help
  | demo
  /-- A script file, with a seed if one is given. -/
  | run (path : String) (seed : Option UInt64)
deriving DecidableEq, Repr

/-- The seed that a word gives. -/
def seed? (word : String) : Option UInt64 :=
  (Decimal.readBelow? 18446744073709551616 word.toList).map UInt64.ofNat

/-- Whether a word has the form of an option. -/
def isOption (word : String) : Bool :=
  match word.toList with
  | '-' :: '-' :: _ => true
  | _ => false

/-- The path and the seed among arguments, those already found being given. -/
def runArguments (path : Option String) (seed : Option UInt64) :
    List String → Except Misuse (String × Option UInt64)
  | [] =>
    match path with
    | some path => .ok (path, seed)
    | none => .error .noPath
  | "--seed" :: [] => .error .badSeed
  | "--seed" :: word :: rest =>
    match seed? word with
    | some seed => runArguments path (some seed) rest
    | none => .error .badSeed
  | word :: rest =>
    if path.isNone && !isOption word then runArguments (some word) seed rest
    else .error (.unexpectedArgument word)

/-- What the arguments of the program ask for. -/
def request (arguments : List String) : Except Misuse Request :=
  match arguments with
  | [] => .ok .help
  | "--help" :: _ => .ok .help
  | "-h" :: _ => .ok .help
  | "help" :: _ => .ok .help
  | "demo" :: [] => .ok .demo
  | "demo" :: _ => .error .demoArguments
  | "run" :: rest => (runArguments none none rest).map fun found => .run found.1 found.2
  | word :: _ => .error (.unknownCommand word)

/-! ## Replies -/

/-- What the program prints and returns. -/
structure Reply where
  status : Nat
  output : String
  message : Option String
deriving DecidableEq, Repr

/-- Why a file cannot be read. -/
inductive FileFault where
  | missing
  | directory
  /-- Part of its path is no directory. -/
  | notDirectory
  /-- Its path, or a name in it, is longer than the system allows. -/
  | nameTooLong
  | forbidden
  | notText
  | other (words : String)
deriving DecidableEq, Repr

/-- The wording of a file fault. -/
def FileFault.message : FileFault → String
  | missing => "No such file or directory (os error 2)"
  | directory => "Is a directory (os error 21)"
  | notDirectory => "Not a directory (os error 20)"
  | nameTooLong => "File name too long (os error 36)"
  | forbidden => "Permission denied (os error 13)"
  | notText => "stream did not contain valid UTF-8"
  | other words => words

/-- The text of a file. -/
def decode (bytes : ByteArray) : Except FileFault String :=
  match String.fromUTF8? bytes with
  | some text => .ok text
  | none => .error .notText

/-- The help. -/
def helpText : String :=
  "learnsim (stimulus-response learning simulator)\n" ++
  "usage:\n" ++
  "  learnsim run <script> [--seed N]\n" ++
  "  learnsim demo\n" ++
  "  learnsim --help\n"

/-- A character of a message; one that would steer a terminal is written by its number. -/
def visible (c : Char) : List Char :=
  let n := c.toNat
  let digits := [Json.hexDigit (n / 16), Json.hexDigit (n % 16)]
  if n = 0x07 ∨ n = 0x08 ∨ n = 0x0C ∨ n = 0x1B ∨ n = 0x7F then '\\' :: 'x' :: digits
  else if 0x80 ≤ n ∧ n ≤ 0x9F then '\\' :: 'u' :: '\x7b' :: digits ++ ['\x7d']
  else [c]

/-- The reply to a failure. -/
def failure (words : String) : Reply :=
  ⟨1, "", some (String.ofList (words.toList.flatMap visible))⟩

/-- The word for a stage in messages. -/
def stageWord : Stage → String
  | .parse => "Parse"
  | .validation => "Validation"
  | .runtime => "Runtime"
  | .evaluation => "Eval"

/-- The reply to an error of a script. -/
def scriptFailure (name : String) (error : Error) : Reply :=
  failure (name ++ ": " ++ stageWord error.stage ++ " error: " ++ error.message)

/-- The seed if none is given. -/
def standardSeed : UInt64 := 1

/-- More steps than any subject that comes to an end takes. -/
def standardBudget : Nat := 4611686018427387904

/-- The report of a script. -/
def reportOf (budget : Nat) (name text : String) (seed : UInt64) : Reply :=
  match Script.parse text with
  | .error error => scriptFailure name error
  | .ok script =>
    match script.simulate budget seed with
    | .error .unfinished => failure (name ++ ": a phase does not end")
    | .error (.error error) => scriptFailure name error
    | .ok experiment =>
      match Report.make script experiment with
      | .error error => scriptFailure name error
      | .ok report => ⟨0, report.toJson.pretty 0 ++ "\n", none⟩

/-- The example: acquisition and extinction of a lever press. -/
def demoScript : String :=
  String.intercalate "\n" [
    "",
    "@comment Acquisition and extinction of a lever press.",
    "",
    "@parameters",
    "\x7b",
    "  'mechanism': 'ga',",
    "  'subjects': 20,",
    "  'behaviors': ['lever', 'groom'],",
    "  'stimulus_elements': ['light', 'food', 'dark'],",
    "  'u': \x7b'food': 10, 'default': 0\x7d,",
    "  'behavior_cost': \x7b'lever': 1, 'default': 0\x7d,",
    "  'alpha_v': 0.1,",
    "  'alpha_w': 0.1,",
    "  'beta': 1,",
    "  'omit_learning': ['dark']",
    "\x7d",
    "",
    "@phase \x7b'label': 'acquisition', 'end': 'light=100'\x7d",
    "LIGHT light | lever: FOOD | ITI",
    "FOOD  food  | ITI",
    "ITI   dark  | LIGHT",
    "",
    "@phase \x7b'label': 'extinction', 'end': 'light=100'\x7d",
    "LIGHT light | ITI",
    "ITI   dark  | LIGHT",
    "",
    "@run \x7b'label': 'conditioning'\x7d",
    "",
    "@pplot ('light', 'lever') \x7b'phase': 'acquisition'\x7d",
    "@vplot ('light', 'lever') \x7b'subject': 'all'\x7d",
    "@nplot ['light', 'lever'] 'light' \x7b'cumulative': 'off'\x7d",
    ""]

/-- The file that a request needs. -/
def Request.path? : Request → Option String
  | .run path _ => some path
  | _ => none

/-- The reply to a request, given what came of reading its file. -/
def answer (budget : Nat) (request : Request) (file : Except FileFault ByteArray) : Reply :=
  match request with
  | .help => ⟨0, helpText, none⟩
  | .demo => reportOf budget "demo" demoScript standardSeed
  | .run path seed =>
    match file.bind decode with
    | .error fault => failure ("Could not read " ++ path ++ ": " ++ fault.message)
    | .ok text => reportOf budget path text (seed.getD standardSeed)

/-- The reply to a wrong command line. -/
def misuseReply (misuse : Misuse) : Reply := ⟨2, helpText, some misuse.message⟩

/-- The reply to a command line, given what came of reading the file that it asks for. -/
def respond (budget : Nat) (arguments : List String) (file : Except FileFault ByteArray) : Reply :=
  match request arguments with
  | .error misuse => misuseReply misuse
  | .ok request => answer budget request file

end Command

end Conditioning
