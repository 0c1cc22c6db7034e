import Quill.Scoping

/-!
# The rules of scopes

What the scope check has to say of a program, told by rules that know nothing of how it goes through
the tree. A program mentions names, and a few words, one after another: it defines names, reads them,
assigns to them, leaves functions and uses the receiver (`Program.mentions`). The order is that of
the text, but an initial value comes before the name that it is for, and an assigned value before its
target. Every mention stands inside scopes, and a scope is known by its place in the tree.

`Mention.issue?` is the rule for one mention. It looks at the scopes around the mention and at the
definitions in these scopes that come earlier, and at nothing else. `ruledIssues` are the issues of
all mentions by these rules, in their order, and `ruledReports` the lines that they are reported in,
with every text written out here. That the check yields these and no others is proved apart from the
rules.
-/

namespace Quill

/-! ## Mentions -/

/-- What makes a scope. -/
inductive ScopeSort where
  /-- The program. -/
  | program
  /-- A block. -/
  | block
  /-- A function or method, with its parameters and its body. -/
  | function
  /-- The body of a class, with the names of its methods. -/
  | classBody
deriving DecidableEq

/-- A scope of the text. -/
structure TextScope where
  /-- What makes it. -/
  sort : ScopeSort
  /-- Where that stands in the tree: its number among the parts of what it is a part of, then the
  number of that, and so on outwards. -/
  place : List Nat
deriving DecidableEq

/-- What is done with a name or a word. -/
inductive Deed where
  /-- A name is defined. -/
  | define (sort : SymbolSort) (name : Name)
  /-- A variable is read. -/
  | read (name : Name)
  /-- A variable is assigned to. -/
  | assign (name : Name)
  /-- A function is left. -/
  | leave (line : Nat)
  /-- The receiver is used. -/
  | receiver (line : Nat)

/-- A name or word of the text, with the scopes around it. -/
structure Mention where
  /-- What is done. -/
  deed : Deed
  /-- The scopes around, innermost first. -/
  scopes : List TextScope

mutual

/-- The mentions of an expression inside some scopes. A value comes before the name that it is
assigned to. -/
def Expr.mentions (scopes : List TextScope) : Expr → List Mention
  | .literal _ _ => []
  | .unary _ operand => operand.mentions scopes
  | .binary left _ right => left.mentions scopes ++ right.mentions scopes
  | .group inner => inner.mentions scopes
  | .reference name => [⟨.read name, scopes⟩]
  | .assign name value => value.mentions scopes ++ [⟨.assign name, scopes⟩]
  | .call callee arguments _ => callee.mentions scopes ++ Expr.listMentions scopes arguments
  | .get object _ => object.mentions scopes
  | .set object _ value => object.mentions scopes ++ value.mentions scopes
  | .this line => [⟨.receiver line, scopes⟩]

/-- The mentions of expressions in order. -/
def Expr.listMentions (scopes : List TextScope) : List Expr → List Mention
  | [] => []
  | e :: rest => e.mentions scopes ++ Expr.listMentions scopes rest

end

/-- The mentions of an expression that may be missing. -/
def Expr.optionMentions (scopes : List TextScope) : Option Expr → List Mention
  | none => []
  | some e => e.mentions scopes

/-- The mentions of parameters. -/
def parameterMentions (scopes : List TextScope) (params : List Name) : List Mention :=
  params.map fun param => ⟨.define .parameter param, scopes⟩

mutual

/-- The mentions of a statement at a place inside some scopes. An initial value comes before its
name, the name of a function or class before all that stands in it. -/
def Stmt.mentions (scopes : List TextScope) (place : List Nat) : Stmt → List Mention
  | .expression value => value.mentions scopes
  | .print value => value.mentions scopes
  | .declare name initial => Expr.optionMentions scopes initial ++ [⟨.define .var name, scopes⟩]
  | .block body => Stmt.listMentions (⟨.block, place⟩ :: scopes) place 0 body
  | .branch condition thenBranch none =>
    condition.mentions scopes ++ thenBranch.mentions scopes (0 :: place)
  | .branch condition thenBranch (some elseBranch) =>
    condition.mentions scopes ++ thenBranch.mentions scopes (0 :: place)
      ++ elseBranch.mentions scopes (1 :: place)
  | .loop condition body => condition.mentions scopes ++ body.mentions scopes (0 :: place)
  | .leave line value => ⟨.leave line, scopes⟩ :: Expr.optionMentions scopes value
  | .function ⟨name, params, body⟩ =>
    ⟨.define .function name, scopes⟩ :: parameterMentions (⟨.function, place⟩ :: scopes) params
      ++ Stmt.listMentions (⟨.function, place⟩ :: scopes) place 0 body
  | .classOf ⟨name, methods⟩ =>
    ⟨.define .classSymbol name, scopes⟩
      :: FunctionDecl.listMentions (⟨.classBody, place⟩ :: scopes) place 0 methods

/-- The mentions of statements in order, the parts of a place from a number on. -/
def Stmt.listMentions (scopes : List TextScope) (place : List Nat) (number : Nat) :
    List Stmt → List Mention
  | [] => []
  | s :: rest =>
    s.mentions scopes (number :: place) ++ Stmt.listMentions scopes place (number + 1) rest

/-- The mentions of the methods of a class, the parts of a place from a number on. -/
def FunctionDecl.listMentions (scopes : List TextScope) (place : List Nat) (number : Nat) :
    List FunctionDecl → List Mention
  | [] => []
  | ⟨name, params, body⟩ :: rest =>
    ⟨.define .function name, scopes⟩
      :: parameterMentions (⟨.function, number :: place⟩ :: scopes) params
      ++ Stmt.listMentions (⟨.function, number :: place⟩ :: scopes) (number :: place) 0 body
      ++ FunctionDecl.listMentions scopes place (number + 1) rest

end

/-- The scope of a program. -/
def TextScope.ofProgram : TextScope := ⟨.program, []⟩

/-- The mentions of a program. -/
def Program.mentions (program : Program) : List Mention :=
  Stmt.listMentions [.ofProgram] [] 0 program.declarations

/-! ## Rules -/

/-- What the mention defines the name as in the scope, if it does. -/
def Mention.defines? (scope : TextScope) (name : String) (mention : Mention) : Option SymbolSort :=
  match mention.deed with
  | .define sort defined =>
    if mention.scopes.head? = some scope ∧ defined.text = name then some sort else none
  | _ => none

/-- What the scope has defined the name as, again and again, in order. -/
def definitions (earlier : List Mention) (scope : TextScope) (name : String) : List SymbolSort :=
  earlier.filterMap (Mention.defines? scope name)

/-- The first definition of the name in the nearest scope that has one. -/
def nearestDefinition? (earlier : List Mention) (scopes : List TextScope) (name : String) :
    Option SymbolSort :=
  scopes.findSome? fun scope => (definitions earlier scope name).head?

/-- The issue of a mention, by the mentions before it. Only a name that was first defined as a
variable or a parameter may be assigned to. -/
def Mention.issue? (earlier : List Mention) : Mention → Option ScopeIssue
  | ⟨.define sort name, scopes⟩ =>
    if ∃ scope ∈ scopes.head?, definitions earlier scope name.text ≠ [] then
      some ⟨.duplicate sort name.text, name.line⟩
    else none
  | ⟨.read name, scopes⟩ =>
    if ∀ scope ∈ scopes, definitions earlier scope name.text = [] then
      some ⟨.undefined name.text, name.line⟩
    else none
  | ⟨.assign name, scopes⟩ =>
    match nearestDefinition? earlier scopes name.text with
    | none => some ⟨.undefined name.text, name.line⟩
    | some first =>
      if first = .var ∨ first = .parameter then none else some ⟨.constant name.text, name.line⟩
  | ⟨.leave line, scopes⟩ =>
    if ∃ scope ∈ scopes, scope.sort = .function then none else some ⟨.topLevelReturn, line⟩
  | ⟨.receiver line, scopes⟩ =>
    if ∃ scope ∈ scopes, scope.sort = .classBody then none else some ⟨.strayReceiver, line⟩

/-- The issues of all mentions in order, each by those before it. -/
def ruledIssues (mentions : List Mention) : List ScopeIssue :=
  mentions.zipIdx.filterMap fun (mention, number) => mention.issue? (mentions.take number)

/-! ## Texts -/

/-- The word that a report on a second definition starts with: what that definition makes of the
name. -/
def SymbolSort.word : SymbolSort → String
  | .var => "Variable"
  | .parameter => "Parameter"
  | .function => "Function"
  | .classSymbol => "Class"
  | .receiver => "Receiver"

/-- The text of an issue. -/
def ScopeCause.wording : ScopeCause → String
  | .undefined name => "Undefined variable '" ++ name ++ "'."
  | .constant name => "Cannot assign to constant '" ++ name ++ "'."
  | .duplicate sort name => sort.word ++ " '" ++ name ++ "' is already defined in this scope."
  | .topLevelReturn => "Cannot return from top-level code."
  | .strayReceiver => "Cannot use 'this' outside of a class."

/-- The reports on all mentions in order: the line of each issue, then its text. -/
def ruledReports (mentions : List Mention) : List String :=
  (ruledIssues mentions).map fun issue =>
    "[line " ++ toString issue.line ++ "] Error: " ++ issue.cause.wording

end Quill
