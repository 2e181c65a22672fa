import Conditioning.Command

/-!
# The program

Reads the script file of a request, prints the reply, and returns its status.
-/

namespace Conditioning.Command

/-- Whether a code of the system is the given one; some calls report it negated. -/
def codeIs (code wanted : UInt32) : Bool :=
  code == wanted || code == 0 - wanted

/-- What the system says about a file that cannot be read. -/
def fileFault : IO.Error → FileFault
  | .noFileOrDirectory .. => .missing
  | .inappropriateType _ code _ => if codeIs code 21 then .directory else .notDirectory
  | .permissionDenied .. => .forbidden
  | .invalidArgument file code words =>
    if codeIs code 36 then .nameTooLong
    else .other (IO.Error.invalidArgument file code words).toString
  | other => .other other.toString

/-- Read the file of a request, if it needs one. -/
def readFile (request : Request) : IO (Except FileFault ByteArray) := do
  match request.path? with
  | none => return .ok ByteArray.empty
  | some path =>
    try
      let bytes ← IO.FS.readBinFile path
      return .ok bytes
    catch error => return .error (fileFault error)

/-- Read the file that a command line asks for and reply. -/
def reply (arguments : List String) : IO Reply := do
  let file ← match request arguments with
    | .error _ => pure (.ok ByteArray.empty)
    | .ok request => readFile request
  return respond standardBudget arguments file

end Conditioning.Command

/-- The program. -/
def main (arguments : List String) : IO UInt32 := do
  let reply ← Conditioning.Command.reply arguments
  match reply.message with
  | some message => IO.eprintln message
  | none => pure ()
  IO.print reply.output
  return reply.status.toUInt32
