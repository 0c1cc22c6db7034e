import Quill.Command.Arguments
import Quill.Text.Quoted

/-!
# The log

A command that keeps a log opens it before it reads its source, so the log is there, with its first
lines, when the source is looked for. Each line names the kind of event by a number.
-/

namespace Quill

/-- The name of the log file. -/
def logFile : String := "quill.log"

namespace Flag

/-- The option as a field of a command that is logged. -/
def field : Flag → String
  | log => "log"
  | json => "json"
  | noCheck => "no_check"
  | emitCpp => "emit_cpp"

end Flag

namespace Action

/-- The action as a logged command names it. -/
def title : Action → String
  | tokenize => "Tokenize"
  | parse => "Parse"
  | check => "Check"
  | translate => "Translate"
  | run => "Run"

end Action

namespace Invocation

/-- A field of a logged command: an option, and whether it is given. -/
def fieldText (flag : Flag) (given : Bool) : String :=
  ", " ++ flag.field ++ ": " ++ (if given then "true" else "false")

/-- The file as a logged command shows it. -/
def fileText (i : Invocation) : String :=
  match i.file with
  | some file => "Some(" ++ Text.quoted file ++ ")"
  | none => "None"

/-- A command with its file and all options that its action takes. -/
def describe (i : Invocation) : String :=
  let options := i.action.flags.filter (· != .log)
  "Cli \x7b commands: " ++ i.action.title ++ " \x7b filename: " ++ i.fileText
    ++ String.join (options.map fun flag => fieldText flag (i.has flag)) ++ " \x7d"
    ++ fieldText .log i.log ++ " \x7d"

end Invocation

/-- What is logged. -/
inductive LogEvent where
  /-- The log has been opened. -/
  | opened
  /-- A command is about to be carried out. -/
  | invoked (invocation : Invocation)
deriving DecidableEq

namespace LogEvent

/-- The number of the kind of event. -/
def number : LogEvent → Nat
  | opened => 114
  | invoked _ => 158

/-- The event in words. -/
def message : LogEvent → String
  | opened => "Logger initialized, writing to " ++ logFile
  | invoked i => "Invoked with " ++ i.describe

/-- The event as a line of the log. -/
def line (e : LogEvent) : String :=
  "[quill:" ++ toString e.number ++ "] - " ++ e.message ++ "\n"

end LogEvent

namespace Request

/-- The log as it is when the source is looked for, if a log is asked for. -/
def openingLog? : Request → Option String
  | .invoke i =>
    if i.log then some (String.join ([LogEvent.opened, .invoked i].map LogEvent.line)) else none
  | _ => none

end Request

end Quill
