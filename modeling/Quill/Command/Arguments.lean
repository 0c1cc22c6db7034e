/-!
# Command lines

What the words of a command line ask for. Words are read from the left and the first one that is out
of place decides: options of the program, then what to do, then the file and the options of that, in
any order. After two dashes everything is a file name.
-/

namespace Quill

/-- What can be done with a source. -/
inductive Action where
  /-- List its tokens. -/
  | tokenize
  /-- Print its tree. -/
  | parse
  /-- Report its scope issues. -/
  | check
  /-- Print it in C++. -/
  | translate
  /-- Run it. -/
  | run
deriving DecidableEq

namespace Action

/-- The word for an action. -/
def text : Action → String
  | tokenize => "tokenize"
  | parse => "parse"
  | check => "check"
  | translate => "translate"
  | run => "run"

/-- All actions. -/
def all : List Action := [tokenize, parse, check, translate, run]

/-- The action of a word. -/
def ofText? (s : String) : Option Action :=
  all.find? fun a => a.text == s

end Action

/-- Options, which are given or not. -/
inductive Flag where
  /-- Write a log file. -/
  | log
  /-- Print JSON. -/
  | json
  /-- Leave out the scope issues. -/
  | noCheck
  /-- Print the program in C++ first. -/
  | emitCpp
deriving DecidableEq

namespace Flag

/-- The word for an option. -/
def text : Flag → String
  | log => "--log"
  | json => "--json"
  | noCheck => "--no-check"
  | emitCpp => "--emit-cpp"

/-- All options. -/
def all : List Flag := [log, json, noCheck, emitCpp]

/-- The option of a word. -/
def ofText? (s : String) : Option Flag :=
  all.find? fun f => f.text == s

end Flag

namespace Action

/-- The options that an action takes. -/
def flags : Action → List Flag
  | tokenize => [.log, .json]
  | parse => [.log, .json]
  | check => [.log]
  | translate => [.log]
  | run => [.log, .noCheck, .emitCpp]

end Action

/-- An action on a file, with options. -/
structure Invocation where
  /-- What to do. -/
  action : Action
  /-- The file, if one is named. -/
  file : Option String
  /-- The options behind the action. -/
  flags : List Flag
  /-- A log file is asked for, before or behind the action. -/
  log : Bool
deriving DecidableEq

namespace Invocation

/-- The option is given. -/
def has (i : Invocation) (flag : Flag) : Bool :=
  i.flags.contains flag

end Invocation

/-- What a command line asks for. -/
inductive Request where
  /-- The version of the program. -/
  | version
  /-- An action. -/
  | invoke (invocation : Invocation)
  /-- Nothing that can be done. -/
  | malformed
deriving DecidableEq

/-- The word looks like an option. A single dash does not. -/
def looksLikeOption (word : String) : Bool :=
  word.startsWith "-" && word != "-"

/-- The word asks for the version. Short options may share a dash; the version is given as soon as
it is asked for, whatever follows it there. -/
def asksVersion (word : String) : Bool :=
  word == "--version" || word.startsWith "-V"

namespace Request

/-- Takes a file name. It must not be empty, and there is only one. -/
def takeFile (i : Invocation) (word : String) : Option Invocation :=
  if word = "" then none
  else match i.file with
    | some _ => none
    | none => some { i with file := some word }

/-- Takes an option. The action must know it, and it is given only once. -/
def takeFlag (i : Invocation) (word : String) : Option Invocation :=
  match Flag.ofText? word with
  | none => none
  | some flag =>
    if i.action.flags.contains flag && !i.has flag then
      some { i with flags := flag :: i.flags, log := i.log || flag == .log }
    else none

/-- Reads the words behind an action. -/
def ofActionWords (i : Invocation) (onlyFiles : Bool) : List String → Request
  | [] => .invoke i
  | word :: rest =>
    if !onlyFiles && word = "--" then ofActionWords i true rest
    else
      let taken :=
        if !onlyFiles && looksLikeOption word then takeFlag i word else takeFile i word
      match taken with
      | some i => ofActionWords i onlyFiles rest
      | none => .malformed

/-- Reads a command line; `log` says that a log file has been asked for already. -/
def ofWords (log : Bool) : List String → Request
  | [] => .malformed
  | word :: rest =>
    if word = Flag.log.text then (if log then .malformed else ofWords true rest)
    else if asksVersion word then .version
    else
      match Action.ofText? word with
      | some action => ofActionWords ⟨action, none, [], log⟩ false rest
      | none => .malformed

end Request

end Quill
