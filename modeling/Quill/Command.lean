import Quill.Command.Arguments
import Quill.Command.Folder
import Quill.Command.Log
import Quill.Evaluation
import Quill.Grammar.Program
import Quill.Scoping
import Quill.Text.Utf8
import Quill.Tree.Cpp
import Quill.Tree.Dump
import Quill.Tree.Sexpr

/-!
# Commands

What a command prints and how it ends, as a function of the command line and of the files. Reading a
file is a parameter, so nothing here touches the world.
-/

namespace Quill

/-- The name and version of the program. -/
def versionLine : String := "quill 0.1.0\n"

/-- How a command ends. -/
inductive Status where
  /-- It was carried out; a program that runs into a fault was run all the same. -/
  | success
  /-- The source could not be had. -/
  | noSource
  /-- The command line asks for nothing that can be done. -/
  | usage
  /-- The source is no program. -/
  | refused
deriving DecidableEq

namespace Status

/-- The status as a number. -/
def code : Status → Nat
  | success => 0
  | noSource => 1
  | usage => 2
  | refused => 65

end Status

/-- What a command leaves behind. -/
structure Report where
  /-- How it ended. -/
  status : Status
  /-- The bytes on the standard output. -/
  output : ByteArray
  /-- The text on the standard error. -/
  errors : String
  /-- A log file was made. -/
  log : Bool

/-! ## The source -/

/-- Why there is no source. -/
inductive SourceFault where
  /-- No file is named. -/
  | noFile
  /-- The file cannot be read. -/
  | unreadable (file : String) (fault : FileFault)
  /-- The file is no text. -/
  | notText (file : String) (fault : Text.Utf8Fault)

namespace SourceFault

/-- A failure with what caused it. -/
def causedBy (failure cause : String) : String :=
  "Error: " ++ failure ++ "\n\nCaused by:\n    " ++ cause ++ "\n"

/-- The fault in words. -/
def report : SourceFault → String
  | noFile => "Error: No source file given\n"
  | unreadable file fault =>
    causedBy ("Cannot " ++ fault.verb ++ " " ++ Text.quoted file) fault.message
  | notText file fault => causedBy (Text.quoted file ++ " is not valid UTF-8") fault.message

end SourceFault

/-- The text of the file that a command names. -/
def loadSource (read : String → Except FileFault (List UInt8)) (file : Option String) :
    Except SourceFault String :=
  match file with
  | none => .error .noFile
  | some file =>
    match read file with
    | .error fault => .error (.unreadable file fault)
    | .ok bytes =>
      match Text.Utf8.decode bytes with
      | .error fault => .error (.notText file fault)
      | .ok source => .ok source

/-! ## Actions -/

/-- Texts, each on a line of its own. -/
def asLines (texts : List String) : String :=
  String.join (texts.map (· ++ "\n"))

/-- What the listing of tokens says of a token that is none of the language, with its line. It goes by
the token alone: reading a program has its own words for such tokens (`LexicalFault.report`). -/
def Token.notice (t : Token) : String :=
  let message :=
    if t.lexeme.isEmpty then "Unterminated string." else "Unexpected character: " ++ t.lexeme
  "[line " ++ toString t.line ++ "] Error: " ++ message

/-- Lists the tokens of a source. Tokens that mark faults are reported; as JSON, all are listed. -/
def tokenizeReport (json : Bool) (source : String) : Status × String × String :=
  let tokens := tokenize source
  let unknown := tokens.filter Token.isUnknown
  let listing :=
    if json then (Json.array (tokens.map Token.toJson)).pretty ++ "\n"
    else asLines ((tokens.filter fun t => !t.isUnknown).map Token.listing)
  (if unknown.isEmpty then .success else .refused, listing, asLines (unknown.map Token.notice))

/-- The program of a source, or the report that refuses it. -/
def withProgramReport (source : String) (log : Bool) (report : Program → Report) : Report :=
  match parse source with
  | .ok program => report program
  | .error problems => ⟨.refused, .empty, asLines (problems.map Problem.report), log⟩

/-- Why a run stopped, in words. -/
def Stop.report : Stop → String
  | .fault f => f.report
  | .sink f => f.message
  | .unfinished => "unfinished"

/-- Runs a program. Its scope issues come first, then its text in C++, if these are asked for. -/
def runReport (check emitCpp log : Bool) (program : Program) : Report :=
  let issues := if check then asLines (program.scopeIssues.map ScopeIssue.report) else ""
  let rendering := if emitCpp then program.cpp.toUTF8 else .empty
  let machine := Machine.ofSink { Sink.unlimited with written := rendering }
  match runAtFuel ampleFuel program machine with
  | .ok _ m => ⟨.success, m.sink.written, issues, log⟩
  | .error stop m => ⟨.success, m.sink.written, issues ++ stop.report ++ "\n", log⟩

namespace Invocation

/-- Carries out an action on a source. -/
def performOn (i : Invocation) (source : String) : Report :=
  match i.action with
  | .tokenize =>
    let (status, output, errors) := tokenizeReport (i.has .json) source
    ⟨status, output.toUTF8, errors, i.log⟩
  | .parse => withProgramReport source i.log fun program =>
      let tree := if i.has .json then program.toJson.pretty else program.sexpr
      ⟨.success, (tree ++ "\n").toUTF8, "", i.log⟩
  | .check => withProgramReport source i.log fun program =>
      ⟨.success, .empty, asLines (program.scopeIssues.map ScopeIssue.report), i.log⟩
  | .translate => withProgramReport source i.log fun program =>
      ⟨.success, program.cpp.toUTF8, "", i.log⟩
  | .run => withProgramReport source i.log (runReport (!i.has .noCheck) (i.has .emitCpp) i.log)

/-- Carries out an action. -/
def perform (read : String → Except FileFault (List UInt8)) (i : Invocation) : Report :=
  match loadSource read i.file with
  | .ok source => i.performOn source
  | .error fault => ⟨.noSource, .empty, fault.report, i.log⟩

end Invocation

/-- What a command line that asks for nothing possible is told. -/
def usageLine : String :=
  "usage: quill [--log] tokenize|parse|check|translate|run [FILE] [OPTIONS]\n"

namespace Request

/-- Does what a command line asks for. -/
def perform (read : String → Except FileFault (List UInt8)) : Request → Report
  | .version => ⟨.success, versionLine.toUTF8, "", false⟩
  | .malformed => ⟨.usage, .empty, usageLine, false⟩
  | .invoke i => i.perform read

/-- Does what a command line asks for in a folder. A log is opened there before the source is looked
for, so it is one of the files. -/
def performIn (folder : Folder) (request : Request) : Report :=
  match request.openingLog? with
  | some log => request.perform (folder.put logFile log.toUTF8.toList).read
  | none => request.perform folder.read

end Request

end Quill
