import Quill.Json
import Quill.Tree

/-!
# Tokens and trees as JSON

A token is an object with its kind, its text and its line. Every node of a tree is an object with its
form as the only key. Names, words and parentheses are written as the tokens they come from.
-/

namespace Quill

/-! ## Tokens -/

/-- A kind as JSON: its name, with the value of a literal if it has one. -/
def Kind.toJson (kind : Kind) : Json :=
  match kind with
  | .string contents => .object [(kind.name, .string contents)]
  | .number value => .object [(kind.name, .number value)]
  | _ => .string kind.name

namespace Token

/-- A token as JSON: kind, text, line. -/
def toJson (t : Token) : Json :=
  .object [("token_type", t.kind.toJson), ("lexeme", .string t.lexeme), ("line", .natural t.line)]

end Token

/-! ## Trees -/

/-- A name as the token it comes from. -/
def Name.toJson (name : Name) : Json :=
  Token.toJson ⟨.identifier, name.text, name.line⟩

/-- A constant: its sort, with its value if the sort alone does not tell it. -/
def Literal.toJson : Literal → Json
  | .number value => .object [("Number", .number value)]
  | .string contents => .object [("Str", .string contents)]
  | .boolean true => .string "True"
  | .boolean false => .string "False"
  | .nil => .string "Nil"

mutual

/-- An expression as JSON. -/
def Expr.toJson : Expr → Json
  | .literal value line =>
    .object [("Literal", .object [("value", value.toJson), ("line", .natural line)])]
  | .unary operator operand =>
    .object [("Unary", .object [("operator", operator.toJson), ("right", operand.toJson)])]
  | .binary left operator right =>
    .object [("Binary", .object
      [("left", left.toJson), ("operator", operator.toJson), ("right", right.toJson)])]
  | .group inner => .object [("Grouping", inner.toJson)]
  | .reference name => .object [("Variable", name.toJson)]
  | .assign name value =>
    .object [("Assign", .object [("name", name.toJson), ("value", value.toJson)])]
  | .call callee arguments line =>
    .object [("Call", .object
      [("callee", callee.toJson), ("paren", Token.toJson ⟨.symbol .rightParen, ")", line⟩),
        ("arguments", .array (Expr.listToJson arguments))])]
  | .get object property =>
    .object [("Get", .object [("object", object.toJson), ("name", property.toJson)])]
  | .set object property value =>
    .object [("Set", .object
      [("object", object.toJson), ("name", property.toJson), ("value", value.toJson)])]
  | .this line =>
    .object [("This", Token.toJson ⟨.keyword .thisWord, Keyword.thisWord.text, line⟩)]

/-- Expressions as JSON. -/
def Expr.listToJson : List Expr → List Json
  | [] => []
  | e :: rest => e.toJson :: Expr.listToJson rest

end

/-- An optional expression as JSON, null if it is missing. -/
def Expr.optionToJson : Option Expr → Json
  | none => .null
  | some e => e.toJson

mutual

/-- A statement as JSON. -/
def Stmt.toJson : Stmt → Json
  | .expression value => .object [("Expression", value.toJson)]
  | .print value => .object [("Print", value.toJson)]
  | .declare name initial =>
    .object [("Var", .object
      [("name", name.toJson), ("initializer", Expr.optionToJson initial)])]
  | .block body => .object [("Block", .array (Stmt.listToJson body))]
  | .branch condition thenBranch none =>
    .object [("If", .object
      [("condition", condition.toJson), ("then_branch", thenBranch.toJson),
        ("else_branch", .null)])]
  | .branch condition thenBranch (some elseBranch) =>
    .object [("If", .object
      [("condition", condition.toJson), ("then_branch", thenBranch.toJson),
        ("else_branch", elseBranch.toJson)])]
  | .loop condition body =>
    .object [("While", .object [("condition", condition.toJson), ("body", body.toJson)])]
  | .leave line value =>
    .object [("Return", .object
      [("keyword", Token.toJson ⟨.keyword .returnWord, Keyword.returnWord.text, line⟩),
        ("value", Expr.optionToJson value)])]
  | .function declaration => .object [("Function", declaration.toJson)]
  | .classOf declaration => .object [("Class", declaration.toJson)]

/-- Statements as JSON. -/
def Stmt.listToJson : List Stmt → List Json
  | [] => []
  | s :: rest => s.toJson :: Stmt.listToJson rest

/-- A function as JSON. -/
def FunctionDecl.toJson : FunctionDecl → Json
  | ⟨name, params, body⟩ =>
    .object [("name", name.toJson), ("params", .array (params.map Name.toJson)),
      ("body", .array (Stmt.listToJson body))]

/-- Functions as JSON. -/
def FunctionDecl.listToJson : List FunctionDecl → List Json
  | [] => []
  | f :: rest => f.toJson :: FunctionDecl.listToJson rest

/-- A class as JSON. -/
def ClassDecl.toJson : ClassDecl → Json
  | ⟨name, methods⟩ =>
    .object [("name", name.toJson), ("methods", .array (FunctionDecl.listToJson methods))]

end

/-- A program as JSON. -/
def Program.toJson (program : Program) : Json :=
  .object [("declarations", .array (Stmt.listToJson program.declarations))]

end Quill
