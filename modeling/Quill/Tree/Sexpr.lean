import Quill.Tree

/-!
# Trees as parenthesised text

Every compound form is a parenthesised list with its operator or word in front; optional parts that
are missing are simply not there. A program has one line a declaration.
-/

namespace Quill

/-- A constant as it stands in the printed tree: texts in quotes, without escapes. -/
def Literal.sexpr : Literal → String
  | .number value => value.text
  | .string contents => "\"" ++ contents ++ "\""
  | .boolean true => "true"
  | .boolean false => "false"
  | .nil => "nil"

mutual

/-- The printed form of an expression. -/
def Expr.sexpr : Expr → String
  | .literal value _ => value.sexpr
  | .unary operator operand => "(" ++ operator.lexeme ++ " " ++ operand.sexpr ++ ")"
  | .binary left operator right =>
    "(" ++ operator.lexeme ++ " " ++ left.sexpr ++ " " ++ right.sexpr ++ ")"
  | .group inner => "(group " ++ inner.sexpr ++ ")"
  | .reference name => name.text
  | .assign name value => "(= " ++ name.text ++ " " ++ value.sexpr ++ ")"
  | .call callee arguments _ => "(call " ++ callee.sexpr ++ Expr.sexprTail arguments ++ ")"
  | .get object property => "(. " ++ object.sexpr ++ " " ++ property.text ++ ")"
  | .set object property value =>
    "(.= " ++ object.sexpr ++ " " ++ property.text ++ " " ++ value.sexpr ++ ")"
  | .this _ => receiverName

/-- Expressions, each after a space. -/
def Expr.sexprTail : List Expr → String
  | [] => ""
  | e :: rest => " " ++ e.sexpr ++ Expr.sexprTail rest

end

/-- An optional expression after a space. -/
def Expr.sexprOption : Option Expr → String
  | none => ""
  | some e => " " ++ e.sexpr

mutual

/-- The printed form of a statement. -/
def Stmt.sexpr : Stmt → String
  | .expression value => "(expr " ++ value.sexpr ++ ")"
  | .print value => "(print " ++ value.sexpr ++ ")"
  | .declare name initial => "(let " ++ name.text ++ Expr.sexprOption initial ++ ")"
  | .block body => "(block" ++ Stmt.sexprTail body ++ ")"
  | .branch condition thenBranch none => "(if " ++ condition.sexpr ++ " " ++ thenBranch.sexpr ++ ")"
  | .branch condition thenBranch (some elseBranch) =>
    "(if " ++ condition.sexpr ++ " " ++ thenBranch.sexpr ++ " " ++ elseBranch.sexpr ++ ")"
  | .loop condition body => "(while " ++ condition.sexpr ++ " " ++ body.sexpr ++ ")"
  | .leave _ value => "(return" ++ Expr.sexprOption value ++ ")"
  | .function declaration => declaration.sexpr
  | .classOf declaration => declaration.sexpr

/-- Statements, each after a space. -/
def Stmt.sexprTail : List Stmt → String
  | [] => ""
  | s :: rest => " " ++ s.sexpr ++ Stmt.sexprTail rest

/-- The printed form of a function: name, parameters, body. -/
def FunctionDecl.sexpr : FunctionDecl → String
  | ⟨name, params, body⟩ =>
    "(fn " ++ name.text ++ " (" ++ " ".intercalate (params.map Name.text) ++ ")"
      ++ Stmt.sexprTail body ++ ")"

/-- Functions, each after a space. -/
def FunctionDecl.sexprTail : List FunctionDecl → String
  | [] => ""
  | f :: rest => " " ++ f.sexpr ++ FunctionDecl.sexprTail rest

/-- The printed form of a class: name, methods. -/
def ClassDecl.sexpr : ClassDecl → String
  | ⟨name, methods⟩ => "(class " ++ name.text ++ FunctionDecl.sexprTail methods ++ ")"

end

/-- The printed form of a program, a line a declaration. -/
def Program.sexpr (program : Program) : String :=
  "\n".intercalate (program.declarations.map Stmt.sexpr)

end Quill
