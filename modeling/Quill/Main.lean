import Quill.Command

/-!
# The program

Reads the command line, opens the log, reads the file that is named, and writes what the command
prints. Everything in between is `Request.perform`.
-/

namespace Quill

/-- The number that the system gives, as a negative one, for a name that is too long. -/
def nameTooLongCode : UInt32 := 36

/-- The reason for which the system refuses a file. A refusal to open a file names it, a refusal to
read from one does not. -/
def fileFault : IO.Error → FileFault
  | .noFileOrDirectory .. => .notFound
  | .inappropriateType (some _) _ _ => .notDirectory
  | .inappropriateType none _ _ => .isDirectory
  | .permissionDenied .. => .other "Permission denied (os error 13)"
  | .invalidArgument file code details =>
    if code = -nameTooLongCode then .nameTooLong
    else .other (toString (IO.Error.invalidArgument file code details))
  | error => .other (toString error)

/-- Opens the log, if one is asked for. -/
def openLog (request : Request) : IO Unit := do
  if let some log := request.openingLog? then IO.FS.writeFile logFile log

/-- Reads the file that a command names, if it names one. -/
def readNamed : Request → IO (Except FileFault (List UInt8))
  | .invoke ⟨_, some file, _, _⟩ => do
    match ← (IO.FS.readBinFile file).toBaseIO with
    | .ok bytes => return .ok bytes.toList
    | .error error => return .error (fileFault error)
  | _ => return .error .notFound

/-- Writes what a command leaves behind, and yields its status. -/
def emit (report : Report) : IO UInt32 := do
  let out ← IO.getStdout
  out.write report.output
  out.flush
  (← IO.getStderr).putStr report.errors
  return UInt32.ofNat report.status.code

end Quill

/-- Does what the words of the command line ask for. -/
def main (words : List String) : IO UInt32 := do
  let request := Quill.Request.ofWords false words
  Quill.openLog request
  let contents ← Quill.readNamed request
  Quill.emit (request.perform fun _ => contents)
