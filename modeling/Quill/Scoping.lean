import Quill.Bindings
import Quill.Diagnostic
import Quill.Tree

/-!
# Scopes in the text of a program

A walk over the tree that reports, without stopping,

* names that are read or assigned where no enclosing scope has declared them before,
* assignments to functions, classes and the receiver,
* names declared twice in one scope,
* leaving a function outside of all functions, and the receiver outside of all classes.

Scopes are those of running programs: one for the program, one a block, one a function, which holds
parameters and body together. The names of methods are kept in a scope of the class that holds the
receiver too; a running program has no such scope, there it only serves to find methods declared
twice.

An expression declares nothing, so its issues are a function of the scopes around it; a statement
yields the innermost scope as it leaves it, and its issues.
-/

namespace Quill

/-! ## Issues -/

/-- What introduces a name. -/
inductive SymbolSort where
  /-- A variable. -/
  | var
  /-- A parameter. -/
  | parameter
  /-- A function or method. -/
  | function
  /-- A class. -/
  | classSymbol
  /-- The receiver. -/
  | receiver
deriving DecidableEq

namespace SymbolSort

/-- Only variables and parameters may be assigned to. -/
def isConstant : SymbolSort → Bool
  | var => false
  | parameter => false
  | function => true
  | classSymbol => true
  | receiver => true

/-- The sort in words. -/
def label : SymbolSort → String
  | var => "Variable"
  | parameter => "Parameter"
  | function => "Function"
  | classSymbol => "Class"
  | receiver => "Receiver"

end SymbolSort

/-- What is doubtful about the use of a name. -/
inductive ScopeCause where
  /-- No enclosing scope has declared the name. -/
  | undefined (name : String)
  /-- The name is assigned to, but stands for a constant. -/
  | constant (name : String)
  /-- The name is declared again in its scope. -/
  | duplicate (sort : SymbolSort) (name : String)
  /-- There is no function to leave. -/
  | topLevelReturn
  /-- There is no class around the receiver. -/
  | strayReceiver
deriving DecidableEq

namespace ScopeCause

/-- The issue in words. -/
def message : ScopeCause → String
  | undefined name => "Undefined variable '" ++ name ++ "'."
  | constant name => "Cannot assign to constant '" ++ name ++ "'."
  | duplicate sort name => sort.label ++ " '" ++ name ++ "' is already defined in this scope."
  | topLevelReturn => "Cannot return from top-level code."
  | strayReceiver => "Cannot use 'this' outside of a class."

end ScopeCause

/-- A doubtful use of a name, with its line. -/
structure ScopeIssue where
  /-- What is doubtful. -/
  cause : ScopeCause
  /-- The line of the name or word. -/
  line : Nat
deriving DecidableEq

namespace ScopeIssue

/-- The issue in words, with its line. -/
def report (issue : ScopeIssue) : String :=
  located issue.line issue.cause.message

end ScopeIssue

/-! ## Frames -/

/-- The names that one scope has declared so far. -/
abbrev Frame := Bindings SymbolSort

namespace Frame

/-- Declares a name. The first declaration of a name in a scope stays; a further one is an issue. -/
def declare (frame : Frame) (name : Name) (sort : SymbolSort) : Frame × List ScopeIssue :=
  if frame.contains name.text then (frame, [⟨.duplicate sort name.text, name.line⟩])
  else (frame.insert name.text sort, [])

/-- Declares names one after another. -/
def declareAll (frame : Frame) (sort : SymbolSort) : List Name → Frame × List ScopeIssue
  | [] => (frame, [])
  | name :: rest =>
    let (frame, first) := frame.declare name sort
    let (frame, more) := frame.declareAll sort rest
    (frame, first ++ more)

end Frame

/-- What the innermost of some scopes knows of a name; the innermost scope comes first. -/
def lookup? (frames : List Frame) (name : String) : Option SymbolSort :=
  frames.findSome? fun frame => frame.get? name

/-! ## Expressions -/

/-- The issue of reading a name. -/
def referenceIssues (frames : List Frame) (name : Name) : List ScopeIssue :=
  match lookup? frames name.text with
  | none => [⟨.undefined name.text, name.line⟩]
  | some _ => []

/-- The issue of assigning to a name. -/
def assignmentIssues (frames : List Frame) (name : Name) : List ScopeIssue :=
  match lookup? frames name.text with
  | none => [⟨.undefined name.text, name.line⟩]
  | some sort => if sort.isConstant then [⟨.constant name.text, name.line⟩] else []

mutual

/-- The issues of an expression inside some scopes, in the order in which its names are used. -/
def Expr.issues (frames : List Frame) (inClass : Bool) : Expr → List ScopeIssue
  | .literal _ _ => []
  | .unary _ operand => operand.issues frames inClass
  | .binary left _ right => left.issues frames inClass ++ right.issues frames inClass
  | .group inner => inner.issues frames inClass
  | .reference name => referenceIssues frames name
  | .assign name value => value.issues frames inClass ++ assignmentIssues frames name
  | .call callee arguments _ =>
    callee.issues frames inClass ++ Expr.listIssues frames inClass arguments
  | .get object _ => object.issues frames inClass
  | .set object _ value => object.issues frames inClass ++ value.issues frames inClass
  | .this line => if inClass then [] else [⟨.strayReceiver, line⟩]

/-- The issues of expressions in order. -/
def Expr.listIssues (frames : List Frame) (inClass : Bool) : List Expr → List ScopeIssue
  | [] => []
  | e :: rest => e.issues frames inClass ++ Expr.listIssues frames inClass rest

end

/-- The issues of an expression that may be missing. -/
def Expr.optionIssues (frames : List Frame) (inClass : Bool) : Option Expr → List ScopeIssue
  | none => []
  | some e => e.issues frames inClass

/-! ## Statements -/

/-- What surrounds a statement. -/
structure Surroundings where
  /-- The scopes around the innermost one. -/
  outer : List Frame
  /-- Some function or method is around. -/
  inFunction : Bool
  /-- Some class is around. -/
  inClass : Bool

namespace Surroundings

/-- Nothing is around a program. -/
def top : Surroundings := ⟨[], false, false⟩

/-- The surroundings of a block in a scope. -/
def insideBlock (s : Surroundings) (frame : Frame) : Surroundings :=
  { s with outer := frame :: s.outer }

/-- The surroundings of a function's body in a scope. -/
def insideFunction (s : Surroundings) (frame : Frame) : Surroundings :=
  { s with outer := frame :: s.outer, inFunction := true }

/-- The surroundings of a class body in a scope. -/
def insideClass (s : Surroundings) (frame : Frame) : Surroundings :=
  { s with outer := frame :: s.outer, inClass := true }

end Surroundings

/-- The scope of a class before its methods. -/
def Frame.ofClass : Frame :=
  Bindings.empty.insert receiverName .receiver

mutual

/-- The innermost scope after a statement, and the statement's issues. -/
def Stmt.check (around : Surroundings) (frame : Frame) : Stmt → Frame × List ScopeIssue
  | .expression value => (frame, value.issues (frame :: around.outer) around.inClass)
  | .print value => (frame, value.issues (frame :: around.outer) around.inClass)
  | .declare name initial =>
    let first := Expr.optionIssues (frame :: around.outer) around.inClass initial
    let (frame, more) := frame.declare name .var
    (frame, first ++ more)
  | .block body => (frame, (Stmt.listCheck (around.insideBlock frame) .empty body).2)
  | .branch condition thenBranch none =>
    let first := condition.issues (frame :: around.outer) around.inClass
    let (frame, more) := thenBranch.check around frame
    (frame, first ++ more)
  | .branch condition thenBranch (some elseBranch) =>
    let first := condition.issues (frame :: around.outer) around.inClass
    let (frame, more) := thenBranch.check around frame
    let (frame, last) := elseBranch.check around frame
    (frame, first ++ more ++ last)
  | .loop condition body =>
    let first := condition.issues (frame :: around.outer) around.inClass
    let (frame, more) := body.check around frame
    (frame, first ++ more)
  | .leave line value =>
    let first : List ScopeIssue := if around.inFunction then [] else [⟨.topLevelReturn, line⟩]
    (frame, first ++ Expr.optionIssues (frame :: around.outer) around.inClass value)
  | .function ⟨name, params, body⟩ =>
    let (frame, first) := frame.declare name .function
    let (inner, second) := Frame.declareAll .empty .parameter params
    (frame, first ++ second ++ (Stmt.listCheck (around.insideFunction frame) inner body).2)
  | .classOf ⟨name, methods⟩ =>
    let (frame, first) := frame.declare name .classSymbol
    (frame, first ++ FunctionDecl.listCheck (around.insideClass frame) .ofClass methods)

/-- The innermost scope after statements in order, and their issues. -/
def Stmt.listCheck (around : Surroundings) (frame : Frame) : List Stmt → Frame × List ScopeIssue
  | [] => (frame, [])
  | s :: rest =>
    let (frame, first) := s.check around frame
    let (frame, more) := Stmt.listCheck around frame rest
    (frame, first ++ more)

/-- The issues of the methods of a class, whose own scope is `frame`. -/
def FunctionDecl.listCheck (around : Surroundings) (frame : Frame) :
    List FunctionDecl → List ScopeIssue
  | [] => []
  | ⟨name, params, body⟩ :: rest =>
    let (frame, first) := frame.declare name .function
    let (inner, second) := Frame.declareAll .empty .parameter params
    first ++ second ++ (Stmt.listCheck (around.insideFunction frame) inner body).2
      ++ FunctionDecl.listCheck around frame rest

end

/-- The scope issues of a program, in the order in which its names are used and declared. -/
def Program.scopeIssues (program : Program) : List ScopeIssue :=
  (Stmt.listCheck .top .empty program.declarations).2

end Quill
