import Quill.Tree

/-!
# Programs as C++ text

A rendering for inspection and export. Functions and classes of the top level come first, everything
else runs inside `main`; a function inside a body becomes a lambda that captures by reference.

The text is a list of lines with their levels (`CppLine`), so that indentation is decided in one
place, `CppLine.render`: a line inside braces has the level of its braces and one more.
-/

namespace Quill

/-! ## Expressions -/

/-- One character of a C++ string literal. -/
def cppEscapeChar (c : Char) : List Char :=
  if c = '"' then "\\\"".toList
  else if c = '\\' then "\\\\".toList
  else if c = '\n' then "\\n".toList
  else if c = '\t' then "\\t".toList
  else if c = '\r' then "\\r".toList
  else [c]

/-- The contents of a C++ string literal. -/
def cppEscape (s : String) : String :=
  String.ofList (s.toList.flatMap cppEscapeChar)

/-- A constant in C++. -/
def Literal.cpp : Literal → String
  | .number value => value.text
  | .string contents => "std::string(\"" ++ cppEscape contents ++ "\")"
  | .boolean true => "true"
  | .boolean false => "false"
  | .nil => "nullptr"

mutual

/-- An expression in C++. Operators are always parenthesised, so parentheses of the source are
dropped; a property of the receiver is reached through an arrow. -/
def Expr.cpp : Expr → String
  | .literal value _ => value.cpp
  | .unary operator operand => "(" ++ operator.lexeme ++ operand.cpp ++ ")"
  | .binary left operator right =>
    "(" ++ left.cpp ++ " " ++ operator.lexeme ++ " " ++ right.cpp ++ ")"
  | .group inner => inner.cpp
  | .reference name => name.text
  | .assign name value => name.text ++ " = " ++ value.cpp
  | .call callee arguments _ =>
    callee.cpp ++ "(" ++ ", ".intercalate (Expr.listCpp arguments) ++ ")"
  | .get (.this _) property => "this->" ++ property.text
  | .get object property => object.cpp ++ "." ++ property.text
  | .set (.this _) property value => "this->" ++ property.text ++ " = " ++ value.cpp
  | .set object property value => object.cpp ++ "." ++ property.text ++ " = " ++ value.cpp
  | .this _ => "(*this)"

/-- Expressions in C++. -/
def Expr.listCpp : List Expr → List String
  | [] => []
  | e :: rest => e.cpp :: Expr.listCpp rest

end

/-- Parameters in C++. -/
def cppParameters (params : List Name) : String :=
  ", ".intercalate (params.map fun p => "auto " ++ p.text)

/-! ## Lines -/

/-- A line of C++ text. -/
inductive CppLine where
  /-- Text at a level. -/
  | text (level : Nat) (content : String)
  /-- An empty line. -/
  | blank

namespace CppLine

/-- Two spaces a level, then the text. -/
def render : CppLine → String
  | text level content => String.ofList (List.replicate (2 * level) ' ') ++ content ++ "\n"
  | blank => "\n"

end CppLine

/-! ## Statements -/

mutual

/-- The lines of a statement that stands at a level. A block directly inside the braces of a branch
or loop (`braced`) needs none of its own. -/
def Stmt.cpp (level : Nat) (braced : Bool) : Stmt → List CppLine
  | .expression value => [.text level (value.cpp ++ ";")]
  | .print value => [.text level ("std::cout << " ++ value.cpp ++ " << std::endl;")]
  | .declare name none => [.text level ("auto " ++ name.text ++ " = nullptr;")]
  | .declare name (some initial) =>
    [.text level ("auto " ++ name.text ++ " = " ++ initial.cpp ++ ";")]
  | .block body =>
    if braced then Stmt.listCpp level body
    else .text level "\x7b" :: Stmt.listCpp (level + 1) body ++ [.text level "\x7d"]
  | .branch condition thenBranch none =>
    .text level ("if (" ++ condition.cpp ++ ") \x7b") :: thenBranch.cpp (level + 1) true
      ++ [.text level "\x7d"]
  | .branch condition thenBranch (some elseBranch) =>
    .text level ("if (" ++ condition.cpp ++ ") \x7b") :: thenBranch.cpp (level + 1) true
      ++ .text level "\x7d else \x7b" :: elseBranch.cpp (level + 1) true ++ [.text level "\x7d"]
  | .loop condition body =>
    .text level ("while (" ++ condition.cpp ++ ") \x7b") :: body.cpp (level + 1) true
      ++ [.text level "\x7d"]
  | .leave _ none => [.text level "return;"]
  | .leave _ (some value) => [.text level ("return " ++ value.cpp ++ ";")]
  | .function ⟨name, params, body⟩ =>
    .text level ("auto " ++ name.text ++ " = [&](" ++ cppParameters params ++ ") \x7b")
      :: Stmt.listCpp (level + 1) body ++ [.text level "\x7d;"]
  | .classOf declaration => declaration.cpp level

/-- The lines of statements that stand at a level. -/
def Stmt.listCpp (level : Nat) : List Stmt → List CppLine
  | [] => []
  | s :: rest => s.cpp level false ++ Stmt.listCpp level rest

/-- The lines of a function of the top level or of a class. -/
def FunctionDecl.cpp (level : Nat) : FunctionDecl → List CppLine
  | ⟨name, params, body⟩ =>
    .text level ("auto " ++ name.text ++ "(" ++ cppParameters params ++ ") \x7b")
      :: Stmt.listCpp (level + 1) body ++ [.text level "\x7d", .blank]

/-- The lines of the methods of a class. -/
def FunctionDecl.listCpp (level : Nat) : List FunctionDecl → List CppLine
  | [] => []
  | f :: rest => f.cpp level ++ FunctionDecl.listCpp level rest

/-- The lines of a class; everything in it is public. -/
def ClassDecl.cpp (level : Nat) : ClassDecl → List CppLine
  | ⟨name, methods⟩ =>
    .text level ("class " ++ name.text ++ " \x7b") :: .text level "public:"
      :: FunctionDecl.listCpp (level + 1) methods ++ [.text level "\x7d;", .blank]

end

/-! ## Programs -/

/-- The lines of a declaration that moves in front of `main`. -/
def Stmt.cppHoisted : Stmt → List CppLine
  | .function declaration => declaration.cpp 0
  | .classOf declaration => declaration.cpp 0
  | _ => []

/-- The statement stays inside `main`. -/
def Stmt.staysInMain : Stmt → Bool
  | .function _ => false
  | .classOf _ => false
  | _ => true

/-- The lines of a program. -/
def Program.cppLines (program : Program) : List CppLine :=
  [.text 0 "// Generated code", .text 0 "#include <iostream>", .text 0 "#include <string>", .blank]
    ++ program.declarations.flatMap Stmt.cppHoisted
    ++ .text 0 "int main() \x7b" :: Stmt.listCpp 1 (program.declarations.filter Stmt.staysInMain)
    ++ [.text 1 "return 0;", .text 0 "\x7d"]

/-- A program in C++. -/
def Program.cpp (program : Program) : String :=
  String.join (program.cppLines.map CppLine.render)

end Quill
