import Quill.Diagnostic
import Quill.Scoping
import Quill.Tree.Cpp
import Quill.Tree.Sexpr

/-!
# Other lines for the same text

Tokens, trees and reports hold lines of the source. `mapLine` and `mapLines` put each of these lines
through a function and change nothing else: a constant function forgets them, and adding a number
moves them down.

Lines are there to be reported and decide nothing. The printed forms of a tree do not show them
(`Program.sexpr_mapLines`, `Program.cpp_mapLines`), and the scope issues of a tree with other lines
are the same issues on these lines (`Program.scopeIssues_mapLines`).
-/

namespace Quill

/-- All lines forgotten. -/
def noLine : Nat → Nat := fun _ => 0

variable (f : Nat → Nat)

/-! ## Tokens and reports -/

/-- The token on another line. -/
def Token.mapLine (t : Token) : Token := { t with line := f t.line }

/-- The name on another line. -/
def Name.mapLine (name : Name) : Name := { name with line := f name.line }

/-- The fault on another line. -/
def LexicalFault.mapLine (fault : LexicalFault) : LexicalFault :=
  { fault with line := f fault.line }

/-- The fault on another line. -/
def GrammarFault.mapLine (fault : GrammarFault) : GrammarFault :=
  { fault with line := f fault.line }

/-- The problem on another line. -/
def Problem.mapLine : Problem → Problem
  | .lexical fault => .lexical (fault.mapLine f)
  | .grammatical fault => .grammatical (fault.mapLine f)

/-- The issue on another line. -/
def ScopeIssue.mapLine (issue : ScopeIssue) : ScopeIssue := { issue with line := f issue.line }

@[simp] theorem Token.kind_mapLine (t : Token) : (t.mapLine f).kind = t.kind := rfl

@[simp] theorem Token.lexeme_mapLine (t : Token) : (t.mapLine f).lexeme = t.lexeme := rfl

@[simp] theorem Token.line_mapLine (t : Token) : (t.mapLine f).line = f t.line := rfl

@[simp] theorem Token.isUnknown_mapLine (t : Token) : (t.mapLine f).isUnknown = t.isUnknown := rfl

@[simp] theorem Token.isEof_mapLine (t : Token) : (t.mapLine f).isEof = t.isEof := rfl

/-- The fault that a token marks is on the line of the token. -/
theorem Token.fault?_mapLine (t : Token) :
    (t.mapLine f).fault? = t.fault?.map (LexicalFault.mapLine f) := by
  unfold Token.fault?
  rw [isUnknown_mapLine]
  split
  · rfl
  · rfl

@[simp] theorem Name.text_mapLine (name : Name) : (name.mapLine f).text = name.text := rfl

/-! ## Trees -/

mutual

/-- The expression on other lines. -/
def Expr.mapLines : Expr → Expr
  | .literal value line => .literal value (f line)
  | .unary operator operand => .unary (operator.mapLine f) operand.mapLines
  | .binary left operator right => .binary left.mapLines (operator.mapLine f) right.mapLines
  | .group inner => .group inner.mapLines
  | .reference name => .reference (name.mapLine f)
  | .assign name value => .assign (name.mapLine f) value.mapLines
  | .call callee arguments line => .call callee.mapLines (Expr.listMapLines arguments) (f line)
  | .get object property => .get object.mapLines (property.mapLine f)
  | .set object property value => .set object.mapLines (property.mapLine f) value.mapLines
  | .this line => .this (f line)

/-- The expressions on other lines. -/
def Expr.listMapLines : List Expr → List Expr
  | [] => []
  | e :: rest => e.mapLines :: Expr.listMapLines rest

end

mutual

/-- The statement on other lines. -/
def Stmt.mapLines : Stmt → Stmt
  | .expression value => .expression (value.mapLines f)
  | .print value => .print (value.mapLines f)
  | .declare name initial => .declare (name.mapLine f) (initial.map (Expr.mapLines f))
  | .block body => .block (Stmt.listMapLines body)
  | .branch condition thenBranch none => .branch (condition.mapLines f) thenBranch.mapLines none
  | .branch condition thenBranch (some elseBranch) =>
    .branch (condition.mapLines f) thenBranch.mapLines (some elseBranch.mapLines)
  | .loop condition body => .loop (condition.mapLines f) body.mapLines
  | .leave line value => .leave (f line) (value.map (Expr.mapLines f))
  | .function declaration => .function declaration.mapLines
  | .classOf declaration => .classOf declaration.mapLines

/-- The statements on other lines. -/
def Stmt.listMapLines : List Stmt → List Stmt
  | [] => []
  | s :: rest => s.mapLines :: Stmt.listMapLines rest

/-- The function on other lines. -/
def FunctionDecl.mapLines : FunctionDecl → FunctionDecl
  | ⟨name, params, body⟩ => ⟨name.mapLine f, params.map (Name.mapLine f), Stmt.listMapLines body⟩

/-- The functions on other lines. -/
def FunctionDecl.listMapLines : List FunctionDecl → List FunctionDecl
  | [] => []
  | declaration :: rest => declaration.mapLines :: FunctionDecl.listMapLines rest

/-- The class on other lines. -/
def ClassDecl.mapLines : ClassDecl → ClassDecl
  | ⟨name, methods⟩ => ⟨name.mapLine f, FunctionDecl.listMapLines methods⟩

end

/-- The program on other lines. -/
def Program.mapLines (program : Program) : Program := ⟨Stmt.listMapLines f program.declarations⟩

/-- Lines of expressions are mapped one by one. -/
theorem Expr.listMapLines_eq_map (es : List Expr) :
    Expr.listMapLines f es = es.map (Expr.mapLines f) := by
  induction es with
  | nil => rfl
  | cons e rest ih => rw [Expr.listMapLines, ih, List.map_cons]

/-- Lines of statements are mapped one by one. -/
theorem Stmt.listMapLines_eq_map (body : List Stmt) :
    Stmt.listMapLines f body = body.map (Stmt.mapLines f) := by
  induction body with
  | nil => rfl
  | cons s rest ih => rw [Stmt.listMapLines, ih, List.map_cons]

/-- Lines of functions are mapped one by one. -/
theorem FunctionDecl.listMapLines_eq_map (methods : List FunctionDecl) :
    FunctionDecl.listMapLines f methods = methods.map (FunctionDecl.mapLines f) := by
  induction methods with
  | nil => rfl
  | cons declaration rest ih => rw [FunctionDecl.listMapLines, ih, List.map_cons]

namespace FunctionDecl

variable (declaration : FunctionDecl)

@[simp] theorem name_mapLines : (declaration.mapLines f).name = declaration.name.mapLine f := by
  cases declaration
  rw [mapLines]

@[simp] theorem params_mapLines :
    (declaration.mapLines f).params = declaration.params.map (Name.mapLine f) := by
  cases declaration
  rw [mapLines]

@[simp] theorem body_mapLines :
    (declaration.mapLines f).body = Stmt.listMapLines f declaration.body := by
  cases declaration
  rw [mapLines]

@[simp] theorem arity_mapLines : (declaration.mapLines f).arity = declaration.arity := by
  simp [arity]

end FunctionDecl

namespace ClassDecl

variable (declaration : ClassDecl)

@[simp] theorem name_mapLines : (declaration.mapLines f).name = declaration.name.mapLine f := by
  cases declaration
  rw [mapLines]

@[simp] theorem methods_mapLines :
    (declaration.mapLines f).methods = declaration.methods.map (FunctionDecl.mapLines f) := by
  cases declaration
  rw [mapLines, FunctionDecl.listMapLines_eq_map]

end ClassDecl

/-! ## The same lines -/

/-- A name stays as it is if its line does. -/
theorem Name.mapLine_id (name : Name) : name.mapLine id = name := rfl

/-- A token stays as it is if its line does. -/
theorem Token.mapLine_id (t : Token) : t.mapLine id = t := rfl

mutual

/-- On its own lines an expression is what it is. -/
theorem Expr.mapLines_id : (e : Expr) → e.mapLines id = e
  | .literal value line => by rw [Expr.mapLines, id_eq]
  | .unary operator operand => by rw [Expr.mapLines, Token.mapLine_id, Expr.mapLines_id operand]
  | .binary left operator right => by
    rw [Expr.mapLines, Token.mapLine_id, Expr.mapLines_id left, Expr.mapLines_id right]
  | .group inner => by rw [Expr.mapLines, Expr.mapLines_id inner]
  | .reference name => by rw [Expr.mapLines, Name.mapLine_id]
  | .assign name value => by rw [Expr.mapLines, Name.mapLine_id, Expr.mapLines_id value]
  | .call callee arguments line => by
    rw [Expr.mapLines, Expr.mapLines_id callee, Expr.listMapLines_id arguments, id_eq]
  | .get object property => by rw [Expr.mapLines, Expr.mapLines_id object, Name.mapLine_id]
  | .set object property value => by
    rw [Expr.mapLines, Expr.mapLines_id object, Name.mapLine_id, Expr.mapLines_id value]
  | .this line => by rw [Expr.mapLines, id_eq]

/-- Expressions stay as they are if their lines do. -/
theorem Expr.listMapLines_id : (es : List Expr) → Expr.listMapLines id es = es
  | [] => rfl
  | e :: rest => by rw [Expr.listMapLines, Expr.mapLines_id e, Expr.listMapLines_id rest]

end

/-- An expression that may be missing stays as it is if its lines do. -/
theorem Expr.optionMapLines_id (e : Option Expr) : e.map (Expr.mapLines id) = e := by
  cases e with
  | none => rfl
  | some e => rw [Option.map_some, Expr.mapLines_id]

mutual

/-- On its own lines a statement is what it is. -/
theorem Stmt.mapLines_id : (s : Stmt) → s.mapLines id = s
  | .expression value => by rw [Stmt.mapLines, Expr.mapLines_id]
  | .print value => by rw [Stmt.mapLines, Expr.mapLines_id]
  | .declare name initial => by rw [Stmt.mapLines, Name.mapLine_id, Expr.optionMapLines_id]
  | .block body => by rw [Stmt.mapLines, Stmt.listMapLines_id body]
  | .branch condition thenBranch none => by
    rw [Stmt.mapLines, Expr.mapLines_id, Stmt.mapLines_id thenBranch]
  | .branch condition thenBranch (some elseBranch) => by
    rw [Stmt.mapLines, Expr.mapLines_id, Stmt.mapLines_id thenBranch, Stmt.mapLines_id elseBranch]
  | .loop condition body => by rw [Stmt.mapLines, Expr.mapLines_id, Stmt.mapLines_id body]
  | .leave line value => by rw [Stmt.mapLines, Expr.optionMapLines_id, id_eq]
  | .function declaration => by rw [Stmt.mapLines, FunctionDecl.mapLines_id declaration]
  | .classOf ⟨name, methods⟩ => by
    rw [Stmt.mapLines, ClassDecl.mapLines, Name.mapLine_id, FunctionDecl.listMapLines_id methods]

/-- Statements stay as they are if their lines do. -/
theorem Stmt.listMapLines_id : (body : List Stmt) → Stmt.listMapLines id body = body
  | [] => rfl
  | s :: rest => by rw [Stmt.listMapLines, Stmt.mapLines_id s, Stmt.listMapLines_id rest]

/-- A function stays as it is if its lines do. -/
theorem FunctionDecl.mapLines_id : (declaration : FunctionDecl) →
    declaration.mapLines id = declaration
  | ⟨name, params, body⟩ => by
    rw [FunctionDecl.mapLines, Name.mapLine_id, Stmt.listMapLines_id body]
    exact congrArg (FunctionDecl.mk name · body) (List.map_id params)

/-- Functions stay as they are if their lines do. -/
theorem FunctionDecl.listMapLines_id : (methods : List FunctionDecl) →
    FunctionDecl.listMapLines id methods = methods
  | [] => rfl
  | declaration :: rest => by
    rw [FunctionDecl.listMapLines, FunctionDecl.mapLines_id declaration,
      FunctionDecl.listMapLines_id rest]

end

/-- The text of a name does not depend on its line. -/
@[simp] theorem Name.text_comp_mapLine : Name.text ∘ Name.mapLine f = Name.text := rfl

/-! ## Printed trees -/

mutual

/-- The printed form of an expression does not show its lines. -/
@[simp] theorem Expr.sexpr_mapLines : (e : Expr) → (e.mapLines f).sexpr = e.sexpr
  | .literal value line => by simp [Expr.mapLines, Expr.sexpr]
  | .unary operator operand => by simp [Expr.mapLines, Expr.sexpr, Expr.sexpr_mapLines operand]
  | .binary left operator right => by
    simp [Expr.mapLines, Expr.sexpr, Expr.sexpr_mapLines left, Expr.sexpr_mapLines right]
  | .group inner => by simp [Expr.mapLines, Expr.sexpr, Expr.sexpr_mapLines inner]
  | .reference name => by simp [Expr.mapLines, Expr.sexpr]
  | .assign name value => by simp [Expr.mapLines, Expr.sexpr, Expr.sexpr_mapLines value]
  | .call callee arguments line => by
    simp [Expr.mapLines, Expr.sexpr, Expr.sexpr_mapLines callee,
      Expr.sexprTail_mapLines arguments]
  | .get object property => by simp [Expr.mapLines, Expr.sexpr, Expr.sexpr_mapLines object]
  | .set object property value => by
    simp [Expr.mapLines, Expr.sexpr, Expr.sexpr_mapLines object, Expr.sexpr_mapLines value]
  | .this line => by simp [Expr.mapLines, Expr.sexpr]

/-- The printed form of arguments does not show their lines. -/
@[simp] theorem Expr.sexprTail_mapLines :
    (es : List Expr) → Expr.sexprTail (Expr.listMapLines f es) = Expr.sexprTail es
  | [] => rfl
  | e :: rest => by
    simp [Expr.listMapLines, Expr.sexprTail, Expr.sexpr_mapLines e, Expr.sexprTail_mapLines rest]

end

/-- The printed form of an expression that may be missing does not show its lines. -/
@[simp] theorem Expr.sexprOption_mapLines (e : Option Expr) :
    Expr.sexprOption (e.map (Expr.mapLines f)) = Expr.sexprOption e := by
  cases e with
  | none => rfl
  | some e => simp [Expr.sexprOption]

mutual

/-- The printed form of a statement does not show its lines. -/
@[simp] theorem Stmt.sexpr_mapLines : (s : Stmt) → (s.mapLines f).sexpr = s.sexpr
  | .expression value => by simp [Stmt.mapLines, Stmt.sexpr]
  | .print value => by simp [Stmt.mapLines, Stmt.sexpr]
  | .declare name initial => by simp [Stmt.mapLines, Stmt.sexpr]
  | .block body => by simp [Stmt.mapLines, Stmt.sexpr, Stmt.sexprTail_mapLines body]
  | .branch condition thenBranch none => by
    simp [Stmt.mapLines, Stmt.sexpr, Stmt.sexpr_mapLines thenBranch]
  | .branch condition thenBranch (some elseBranch) => by
    simp [Stmt.mapLines, Stmt.sexpr, Stmt.sexpr_mapLines thenBranch,
      Stmt.sexpr_mapLines elseBranch]
  | .loop condition body => by simp [Stmt.mapLines, Stmt.sexpr, Stmt.sexpr_mapLines body]
  | .leave line value => by simp [Stmt.mapLines, Stmt.sexpr]
  | .function declaration => by
    simp [Stmt.mapLines, Stmt.sexpr, FunctionDecl.sexpr_mapLines declaration]
  | .classOf ⟨name, methods⟩ => by
    simp [Stmt.mapLines, Stmt.sexpr, ClassDecl.mapLines, ClassDecl.sexpr,
      FunctionDecl.sexprTail_mapLines methods]

/-- The printed form of statements does not show their lines. -/
@[simp] theorem Stmt.sexprTail_mapLines :
    (body : List Stmt) → Stmt.sexprTail (Stmt.listMapLines f body) = Stmt.sexprTail body
  | [] => rfl
  | s :: rest => by
    simp [Stmt.listMapLines, Stmt.sexprTail, Stmt.sexpr_mapLines s, Stmt.sexprTail_mapLines rest]

/-- The printed form of a function does not show its lines. -/
@[simp] theorem FunctionDecl.sexpr_mapLines :
    (declaration : FunctionDecl) → (declaration.mapLines f).sexpr = declaration.sexpr
  | ⟨name, params, body⟩ => by
    simp [FunctionDecl.mapLines, FunctionDecl.sexpr, Stmt.sexprTail_mapLines body]

/-- The printed form of functions does not show their lines. -/
@[simp] theorem FunctionDecl.sexprTail_mapLines : (methods : List FunctionDecl) →
    FunctionDecl.sexprTail (FunctionDecl.listMapLines f methods) = FunctionDecl.sexprTail methods
  | [] => rfl
  | declaration :: rest => by
    simp [FunctionDecl.listMapLines, FunctionDecl.sexprTail,
      FunctionDecl.sexpr_mapLines declaration, FunctionDecl.sexprTail_mapLines rest]

end

/-- The printed tree does not show lines. -/
theorem Program.sexpr_mapLines (program : Program) : (program.mapLines f).sexpr = program.sexpr := by
  have hcomp : Stmt.sexpr ∘ Stmt.mapLines f = Stmt.sexpr := funext (Stmt.sexpr_mapLines f)
  simp [Program.mapLines, Program.sexpr, Stmt.listMapLines_eq_map, hcomp]

/-! ## C++ -/

/-- The expression is the receiver, without parentheses. -/
def Expr.isReceiver : Expr → Bool
  | .this _ => true
  | _ => false

/-- Whether an expression is the receiver does not depend on lines. -/
@[simp] theorem Expr.isReceiver_mapLines (e : Expr) : (e.mapLines f).isReceiver = e.isReceiver := by
  cases e <;> rfl

/-- How a property is reached through an object: by an arrow from the receiver, or by a point. -/
theorem Expr.cpp_get (object : Expr) (property : Name) :
    (Expr.get object property).cpp =
      (if object.isReceiver then "this->" else object.cpp ++ ".") ++ property.text := by
  cases object <;> rfl

/-- An assignment to a property of the receiver is printed with an arrow, any other with a dot. -/
theorem Expr.cpp_set (object : Expr) (property : Name) (value : Expr) :
    (Expr.set object property value).cpp =
      (if object.isReceiver then "this->" else object.cpp ++ ".") ++ property.text ++ " = "
        ++ value.cpp := by
  cases object <;> rfl

mutual

/-- The translation of an expression does not show its lines. -/
@[simp] theorem Expr.cpp_mapLines : (e : Expr) → (e.mapLines f).cpp = e.cpp
  | .literal value line => by simp [Expr.mapLines, Expr.cpp]
  | .unary operator operand => by simp [Expr.mapLines, Expr.cpp, Expr.cpp_mapLines operand]
  | .binary left operator right => by
    simp [Expr.mapLines, Expr.cpp, Expr.cpp_mapLines left, Expr.cpp_mapLines right]
  | .group inner => by simp [Expr.mapLines, Expr.cpp, Expr.cpp_mapLines inner]
  | .reference name => by simp [Expr.mapLines, Expr.cpp]
  | .assign name value => by simp [Expr.mapLines, Expr.cpp, Expr.cpp_mapLines value]
  | .call callee arguments line => by
    simp [Expr.mapLines, Expr.cpp, Expr.cpp_mapLines callee, Expr.listCpp_mapLines arguments]
  | .get object property => by
    rw [Expr.mapLines, Expr.cpp_get, Expr.cpp_get, Expr.isReceiver_mapLines,
      Expr.cpp_mapLines object, Name.text_mapLine]
  | .set object property value => by
    rw [Expr.mapLines, Expr.cpp_set, Expr.cpp_set, Expr.isReceiver_mapLines,
      Expr.cpp_mapLines object, Expr.cpp_mapLines value, Name.text_mapLine]
  | .this line => by simp [Expr.mapLines, Expr.cpp]

/-- The translation of arguments does not show their lines. -/
@[simp] theorem Expr.listCpp_mapLines :
    (es : List Expr) → Expr.listCpp (Expr.listMapLines f es) = Expr.listCpp es
  | [] => rfl
  | e :: rest => by
    simp [Expr.listMapLines, Expr.listCpp, Expr.cpp_mapLines e, Expr.listCpp_mapLines rest]

end

/-- The translation of parameters does not show their lines. -/
@[simp] theorem cppParameters_mapLine (params : List Name) :
    cppParameters (params.map (Name.mapLine f)) = cppParameters params := by
  simp [cppParameters, Function.comp_def]

mutual

/-- The translation of a statement does not show its lines. -/
@[simp] theorem Stmt.cpp_mapLines (level : Nat) (braced : Bool) :
    (s : Stmt) → (s.mapLines f).cpp level braced = s.cpp level braced
  | .expression value => by simp [Stmt.mapLines, Stmt.cpp]
  | .print value => by simp [Stmt.mapLines, Stmt.cpp]
  | .declare name none => by simp [Stmt.mapLines, Stmt.cpp]
  | .declare name (some initial) => by simp [Stmt.mapLines, Stmt.cpp]
  | .block body => by simp [Stmt.mapLines, Stmt.cpp, Stmt.listCpp_mapLines _ body]
  | .branch condition thenBranch none => by
    simp [Stmt.mapLines, Stmt.cpp, Stmt.cpp_mapLines _ _ thenBranch]
  | .branch condition thenBranch (some elseBranch) => by
    simp [Stmt.mapLines, Stmt.cpp, Stmt.cpp_mapLines _ _ thenBranch,
      Stmt.cpp_mapLines _ _ elseBranch]
  | .loop condition body => by simp [Stmt.mapLines, Stmt.cpp, Stmt.cpp_mapLines _ _ body]
  | .leave line none => by simp [Stmt.mapLines, Stmt.cpp]
  | .leave line (some value) => by simp [Stmt.mapLines, Stmt.cpp]
  | .function ⟨name, params, body⟩ => by
    simp [Stmt.mapLines, FunctionDecl.mapLines, Stmt.cpp, Stmt.listCpp_mapLines _ body]
  | .classOf declaration => by
    simp [Stmt.mapLines, Stmt.cpp, ClassDecl.cpp_mapLines _ declaration]

/-- The translation of statements does not show their lines. -/
@[simp] theorem Stmt.listCpp_mapLines (level : Nat) :
    (body : List Stmt) → Stmt.listCpp level (Stmt.listMapLines f body) = Stmt.listCpp level body
  | [] => rfl
  | s :: rest => by
    simp [Stmt.listMapLines, Stmt.listCpp, Stmt.cpp_mapLines _ _ s, Stmt.listCpp_mapLines _ rest]

/-- The translation of a function does not show its lines. -/
@[simp] theorem FunctionDecl.cpp_mapLines (level : Nat) :
    (declaration : FunctionDecl) → (declaration.mapLines f).cpp level = declaration.cpp level
  | ⟨name, params, body⟩ => by
    simp [FunctionDecl.mapLines, FunctionDecl.cpp, Stmt.listCpp_mapLines _ body]

/-- The translation of functions does not show their lines. -/
@[simp] theorem FunctionDecl.listCpp_mapLines (level : Nat) : (methods : List FunctionDecl) →
    FunctionDecl.listCpp level (FunctionDecl.listMapLines f methods) =
      FunctionDecl.listCpp level methods
  | [] => rfl
  | declaration :: rest => by
    simp [FunctionDecl.listMapLines, FunctionDecl.listCpp, FunctionDecl.cpp_mapLines _ declaration,
      FunctionDecl.listCpp_mapLines _ rest]

/-- The translation of a class does not show its lines. -/
@[simp] theorem ClassDecl.cpp_mapLines (level : Nat) :
    (declaration : ClassDecl) → (declaration.mapLines f).cpp level = declaration.cpp level
  | ⟨name, methods⟩ => by
    simp [ClassDecl.mapLines, ClassDecl.cpp, FunctionDecl.listCpp_mapLines _ methods]

end

/-- What is put in front of the main function does not depend on lines. -/
theorem Stmt.cppHoisted_mapLines (s : Stmt) : (s.mapLines f).cppHoisted = s.cppHoisted := by
  cases s with
  | branch condition thenBranch elseBranch =>
    cases elseBranch with
    | none => simp [Stmt.mapLines, Stmt.cppHoisted]
    | some elseBranch => simp [Stmt.mapLines, Stmt.cppHoisted]
  | _ => simp [Stmt.mapLines, Stmt.cppHoisted]

/-- Which statements stay in the main function does not depend on lines. -/
theorem Stmt.staysInMain_mapLines (s : Stmt) : (s.mapLines f).staysInMain = s.staysInMain := by
  cases s with
  | branch condition thenBranch elseBranch =>
    cases elseBranch with
    | none => simp [Stmt.mapLines, Stmt.staysInMain]
    | some elseBranch => simp [Stmt.mapLines, Stmt.staysInMain]
  | _ => simp [Stmt.mapLines, Stmt.staysInMain]

/-- Nor does its text in C++. -/
theorem Program.cpp_mapLines (program : Program) : (program.mapLines f).cpp = program.cpp := by
  have hhoisted : (fun s : Stmt => (s.mapLines f).cppHoisted) = Stmt.cppHoisted :=
    funext (Stmt.cppHoisted_mapLines f)
  have hstays : Stmt.staysInMain ∘ Stmt.mapLines f = Stmt.staysInMain :=
    funext (Stmt.staysInMain_mapLines f)
  have hmain : ∀ body : List Stmt,
      (body.map (Stmt.mapLines f)).filter Stmt.staysInMain =
        Stmt.listMapLines f (body.filter Stmt.staysInMain) := by
    intro body
    rw [List.filter_map, hstays, Stmt.listMapLines_eq_map]
  have hlines : (program.mapLines f).cppLines = program.cppLines := by
    rw [Program.cppLines, Program.mapLines, Stmt.listMapLines_eq_map, List.flatMap_map, hhoisted,
      hmain, Stmt.listCpp_mapLines, Program.cppLines]
  rw [Program.cpp, hlines, Program.cpp]

/-! ## Scopes -/

/-- A name on another line is declared alike, with its issues on that line. -/
theorem Frame.declare_mapLine (frame : Frame) (name : Name) (sort : SymbolSort) :
    frame.declare (name.mapLine f) sort =
      ((frame.declare name sort).1, (frame.declare name sort).2.map (ScopeIssue.mapLine f)) := by
  unfold Frame.declare
  rw [Name.text_mapLine]
  by_cases h : frame.contains name.text
  · simp [h, ScopeIssue.mapLine, Name.mapLine]
  · simp [h]

/-- Parameters on other lines are declared alike, with their issues on those lines. -/
theorem Frame.declareAll_mapLine (sort : SymbolSort) (params : List Name) (frame : Frame) :
    frame.declareAll sort (params.map (Name.mapLine f)) =
      ((frame.declareAll sort params).1,
        (frame.declareAll sort params).2.map (ScopeIssue.mapLine f)) := by
  induction params generalizing frame with
  | nil => rfl
  | cons name rest ih => simp [Frame.declareAll, Frame.declare_mapLine, ih]

/-- The issues of reading a name on another line are its issues on that line. -/
theorem referenceIssues_mapLine (frames : List Frame) (name : Name) :
    referenceIssues frames (name.mapLine f) =
      (referenceIssues frames name).map (ScopeIssue.mapLine f) := by
  unfold referenceIssues
  rw [Name.text_mapLine]
  cases lookup? frames name.text with
  | none => rfl
  | some sort => rfl

/-- The issues of assigning to a name on another line are its issues on that line. -/
theorem assignmentIssues_mapLine (frames : List Frame) (name : Name) :
    assignmentIssues frames (name.mapLine f) =
      (assignmentIssues frames name).map (ScopeIssue.mapLine f) := by
  unfold assignmentIssues
  rw [Name.text_mapLine]
  cases lookup? frames name.text with
  | none => rfl
  | some sort =>
    cases h : sort.isConstant with
    | true => simp [h, ScopeIssue.mapLine, Name.mapLine]
    | false => simp [h]

mutual

/-- The issues of an expression on other lines are its issues on those lines. -/
theorem Expr.issues_mapLines (frames : List Frame) (inClass : Bool) : (e : Expr) →
    (e.mapLines f).issues frames inClass = (e.issues frames inClass).map (ScopeIssue.mapLine f)
  | .literal value line => by simp [Expr.mapLines, Expr.issues]
  | .unary operator operand => by
    simp [Expr.mapLines, Expr.issues, Expr.issues_mapLines frames inClass operand]
  | .binary left operator right => by
    simp [Expr.mapLines, Expr.issues, Expr.issues_mapLines frames inClass left,
      Expr.issues_mapLines frames inClass right]
  | .group inner => by
    simp [Expr.mapLines, Expr.issues, Expr.issues_mapLines frames inClass inner]
  | .reference name => by
    rw [Expr.mapLines, Expr.issues, Expr.issues]
    exact referenceIssues_mapLine f frames name
  | .assign name value => by
    simp [Expr.mapLines, Expr.issues, Expr.issues_mapLines frames inClass value,
      assignmentIssues_mapLine]
  | .call callee arguments line => by
    simp [Expr.mapLines, Expr.issues, Expr.issues_mapLines frames inClass callee,
      Expr.listIssues_mapLines frames inClass arguments]
  | .get object property => by
    simp [Expr.mapLines, Expr.issues, Expr.issues_mapLines frames inClass object]
  | .set object property value => by
    simp [Expr.mapLines, Expr.issues, Expr.issues_mapLines frames inClass object,
      Expr.issues_mapLines frames inClass value]
  | .this line => by
    cases inClass with
    | true => rfl
    | false => rfl

/-- The issues of expressions on other lines are their issues on those lines. -/
theorem Expr.listIssues_mapLines (frames : List Frame) (inClass : Bool) : (es : List Expr) →
    Expr.listIssues frames inClass (Expr.listMapLines f es) =
      (Expr.listIssues frames inClass es).map (ScopeIssue.mapLine f)
  | [] => rfl
  | e :: rest => by
    simp [Expr.listMapLines, Expr.listIssues, Expr.issues_mapLines frames inClass e,
      Expr.listIssues_mapLines frames inClass rest]

end

/-- The issues of an expression that may be missing are on its lines too. -/
theorem Expr.optionIssues_mapLines (frames : List Frame) (inClass : Bool) (e : Option Expr) :
    Expr.optionIssues frames inClass (e.map (Expr.mapLines f)) =
      (Expr.optionIssues frames inClass e).map (ScopeIssue.mapLine f) := by
  cases e with
  | none => rfl
  | some e => exact Expr.issues_mapLines f frames inClass e

mutual

/-- A statement on other lines leaves the same frame and has its issues on those lines. -/
theorem Stmt.check_mapLines (around : Surroundings) (frame : Frame) : (s : Stmt) →
    (s.mapLines f).check around frame =
      ((s.check around frame).1, (s.check around frame).2.map (ScopeIssue.mapLine f))
  | .expression value => by simp [Stmt.mapLines, Stmt.check, Expr.issues_mapLines]
  | .print value => by simp [Stmt.mapLines, Stmt.check, Expr.issues_mapLines]
  | .declare name initial => by
    simp [Stmt.mapLines, Stmt.check, Expr.optionIssues_mapLines, Frame.declare_mapLine]
  | .block body => by simp [Stmt.mapLines, Stmt.check, Stmt.listCheck_mapLines _ _ body]
  | .branch condition thenBranch none => by
    simp [Stmt.mapLines, Stmt.check, Expr.issues_mapLines, Stmt.check_mapLines _ _ thenBranch]
  | .branch condition thenBranch (some elseBranch) => by
    simp [Stmt.mapLines, Stmt.check, Expr.issues_mapLines, Stmt.check_mapLines _ _ thenBranch,
      Stmt.check_mapLines _ _ elseBranch]
  | .loop condition body => by
    simp [Stmt.mapLines, Stmt.check, Expr.issues_mapLines, Stmt.check_mapLines _ _ body]
  | .leave line value => by
    cases h : around.inFunction with
    | true => simp [Stmt.mapLines, Stmt.check, Expr.optionIssues_mapLines, h]
    | false => simp [Stmt.mapLines, Stmt.check, Expr.optionIssues_mapLines, h, ScopeIssue.mapLine]
  | .function ⟨name, params, body⟩ => by
    simp [Stmt.mapLines, FunctionDecl.mapLines, Stmt.check, Frame.declare_mapLine,
      Frame.declareAll_mapLine, Stmt.listCheck_mapLines _ _ body]
  | .classOf ⟨name, methods⟩ => by
    simp [Stmt.mapLines, ClassDecl.mapLines, Stmt.check, Frame.declare_mapLine,
      FunctionDecl.listCheck_mapLines _ _ methods]

/-- Statements on other lines leave the same frame and have their issues on those lines. -/
theorem Stmt.listCheck_mapLines (around : Surroundings) (frame : Frame) : (body : List Stmt) →
    Stmt.listCheck around frame (Stmt.listMapLines f body) =
      ((Stmt.listCheck around frame body).1,
        (Stmt.listCheck around frame body).2.map (ScopeIssue.mapLine f))
  | [] => rfl
  | s :: rest => by
    simp [Stmt.listMapLines, Stmt.listCheck, Stmt.check_mapLines _ _ s,
      Stmt.listCheck_mapLines _ _ rest]

/-- The issues of methods on other lines are their issues on those lines. -/
theorem FunctionDecl.listCheck_mapLines (around : Surroundings) (frame : Frame) :
    (methods : List FunctionDecl) →
      FunctionDecl.listCheck around frame (FunctionDecl.listMapLines f methods) =
        (FunctionDecl.listCheck around frame methods).map (ScopeIssue.mapLine f)
  | [] => rfl
  | ⟨name, params, body⟩ :: rest => by
    simp [FunctionDecl.listMapLines, FunctionDecl.mapLines, FunctionDecl.listCheck,
      Frame.declare_mapLine, Frame.declareAll_mapLine, Stmt.listCheck_mapLines _ _ body,
      FunctionDecl.listCheck_mapLines _ _ rest]

end

/-- On other lines a program has the same scope issues, on these lines. -/
theorem Program.scopeIssues_mapLines (program : Program) :
    (program.mapLines f).scopeIssues = program.scopeIssues.map (ScopeIssue.mapLine f) := by
  rw [Program.scopeIssues, Program.mapLines, Stmt.listCheck_mapLines, Program.scopeIssues]

end Quill
