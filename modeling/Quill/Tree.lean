import Quill.Token

/-!
# Trees

The tree of a program. Names, operators and a few marks keep the line on which they stand in the
source, because later reports name it; punctuation is gone.
-/

namespace Quill

/-- A name where it stands in the source. -/
structure Name where
  /-- The name itself. -/
  text : String
  /-- Its line. -/
  line : Nat
deriving DecidableEq

/-- A constant written in the source. -/
inductive Literal where
  /-- A number. -/
  | number (value : Number)
  /-- A text, without its quotes. -/
  | string (contents : String)
  /-- One of the two truth values. -/
  | boolean (value : Bool)
  /-- The value that stands for none. -/
  | nil
deriving DecidableEq

/-- An expression. -/
inductive Expr where
  /-- A constant. -/
  | literal (value : Literal) (line : Nat)
  /-- An operator before its operand. -/
  | unary (operator : Token) (operand : Expr)
  /-- An operator between its operands. -/
  | binary (left : Expr) (operator : Token) (right : Expr)
  /-- An expression in parentheses. -/
  | group (inner : Expr)
  /-- A variable, read. -/
  | reference (name : Name)
  /-- A variable, written. -/
  | assign (name : Name) (value : Expr)
  /-- A call, with the line of its closing parenthesis. -/
  | call (callee : Expr) (arguments : List Expr) (line : Nat)
  /-- A property, read. -/
  | get (object : Expr) (property : Name)
  /-- A property, written. -/
  | set (object : Expr) (property : Name) (value : Expr)
  /-- The receiver of a method. -/
  | this (line : Nat)

mutual

/-- A statement or declaration. -/
inductive Stmt where
  /-- An expression for its effects. -/
  | expression (value : Expr)
  /-- Prints a value and ends the line. -/
  | print (value : Expr)
  /-- Declares a variable. -/
  | declare (name : Name) (initial : Option Expr)
  /-- Statements in a scope of their own. -/
  | block (body : List Stmt)
  /-- A choice. -/
  | branch (condition : Expr) (thenBranch : Stmt) (elseBranch : Option Stmt)
  /-- A loop. -/
  | loop (condition : Expr) (body : Stmt)
  /-- Leaves the function, with the line of the word. -/
  | leave (line : Nat) (value : Option Expr)
  /-- Declares a function. -/
  | function (declaration : FunctionDecl)
  /-- Declares a class. -/
  | classOf (declaration : ClassDecl)

/-- A named function; methods are functions too. -/
structure FunctionDecl where
  /-- Its name. -/
  name : Name
  /-- Its parameters in order. -/
  params : List Name
  /-- What it does. -/
  body : List Stmt

/-- A class: a name and its methods in order. -/
structure ClassDecl where
  /-- Its name. -/
  name : Name
  /-- Its methods. -/
  methods : List FunctionDecl

end

namespace FunctionDecl

/-- The number of arguments it takes. -/
def arity (declaration : FunctionDecl) : Nat :=
  declaration.params.length

end FunctionDecl

/-- A program: declarations and statements in order. -/
structure Program where
  /-- What stands at the top level. -/
  declarations : List Stmt

namespace Program

/-- Nothing stands at the top level. -/
def isEmpty (program : Program) : Bool :=
  program.declarations.isEmpty

end Program

/-- The receiver's name, which no variable can have because it is a reserved word. -/
def receiverName : String := "this"

/-- The method that a class runs when it makes an instance. -/
def initializerName : String := "init"

end Quill
