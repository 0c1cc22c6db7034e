import Quill.Proofs.Tree.SexpText
import Quill.Tree.Sexpr

/-!
# Trees as items

Printed trees are items: `Expr.item`, `Stmt.item` and `FunctionDecl.item` are the items whose text
is the printed form (`Expr.chars_item`, `Stmt.chars_item`), and a program is printed as its
statements on lines of their own (`Program.toList_sexpr`).
-/

namespace Quill

/-! ## Items of trees -/

/-- A constant as an item. -/
def Literal.item : Literal → Sexp
  | .number value => .word value.text
  | .string contents => .quoted contents
  | .boolean true => .word "true"
  | .boolean false => .word "false"
  | .nil => .word "nil"

/-- A name as an item. -/
def Name.item (name : Name) : Sexp :=
  .word name.text

mutual

/-- An expression as an item. -/
def Expr.item : Expr → Sexp
  | .literal value _ => value.item
  | .unary operator operand => .list [.word operator.lexeme, operand.item]
  | .binary left operator right => .list [.word operator.lexeme, left.item, right.item]
  | .group inner => .list [.word "group", inner.item]
  | .reference name => name.item
  | .assign name value => .list [.word "=", name.item, value.item]
  | .call callee arguments _ => .list (.word "call" :: callee.item :: Expr.items arguments)
  | .get object property => .list [.word ".", object.item, property.item]
  | .set object property value => .list [.word ".=", object.item, property.item, value.item]
  | .this _ => .word receiverName

/-- Expressions as items. -/
def Expr.items : List Expr → List Sexp
  | [] => []
  | e :: rest => e.item :: Expr.items rest

end

/-- An expression that may be missing as items. -/
def Expr.optionItems : Option Expr → List Sexp
  | none => []
  | some e => [e.item]

mutual

/-- A statement as an item. -/
def Stmt.item : Stmt → Sexp
  | .expression value => .list [.word "expr", value.item]
  | .print value => .list [.word "print", value.item]
  | .declare name initial => .list (.word "let" :: name.item :: Expr.optionItems initial)
  | .block body => .list (.word "block" :: Stmt.items body)
  | .branch condition thenBranch none => .list [.word "if", condition.item, thenBranch.item]
  | .branch condition thenBranch (some elseBranch) =>
    .list [.word "if", condition.item, thenBranch.item, elseBranch.item]
  | .loop condition body => .list [.word "while", condition.item, body.item]
  | .leave _ value => .list (.word "return" :: Expr.optionItems value)
  | .function declaration => declaration.item
  | .classOf ⟨name, methods⟩ => .list (.word "class" :: name.item :: FunctionDecl.items methods)

/-- Statements as items. -/
def Stmt.items : List Stmt → List Sexp
  | [] => []
  | s :: rest => s.item :: Stmt.items rest

/-- A function as an item. -/
def FunctionDecl.item : FunctionDecl → Sexp
  | ⟨name, params, body⟩ =>
    .list (.word "fn" :: name.item :: .list (params.map Name.item) :: Stmt.items body)

/-- Functions as items. -/
def FunctionDecl.items : List FunctionDecl → List Sexp
  | [] => []
  | f :: rest => f.item :: FunctionDecl.items rest

end

/-! ## The characters of items -/

/-- A list of items is written in parentheses, with blanks between them. -/
theorem Sexp.chars_list (items : List Sexp) :
    (Sexp.list items).chars = '(' :: listChars ' ' items ++ [')'] := by
  cases items <;> simp [chars, listChars]

/-- Texts with a separator between them, where each is the text of an item. -/
theorem Sexp.listChars_map {α : Type} {item : α → Sexp} {text : α → String}
    (h : ∀ a, (item a).chars = (text a).toList) {separator : String} {c : Char}
    (hseparator : separator.toList = [c]) (l : List α) :
    listChars c (l.map item) = (separator.intercalate (l.map text)).toList := by
  cases l with
  | nil => simp [listChars]
  | cons a rest =>
    induction rest generalizing a with
    | nil => simp [listChars, tailChars, h]
    | cons b rest ih =>
      have hrest := ih b
      simp only [List.map_cons, listChars] at hrest ⊢
      rw [String.intercalate_cons_cons, tailChars, List.cons_append, hrest, h]
      simp [hseparator]

/-- A constant is written as its item. -/
theorem Literal.chars_item (value : Literal) : value.item.chars = value.sexpr.toList := by
  cases value with
  | boolean b => cases b <;> rfl
  | string contents => simp [item, sexpr, Sexp.chars]
  | _ => rfl

mutual

/-- An expression is written as its item. -/
theorem Expr.chars_item : (e : Expr) → e.item.chars = e.sexpr.toList
  | .literal value _ => value.chars_item
  | .unary operator operand => by
    simp [item, sexpr, Sexp.chars, Sexp.tailChars, chars_item operand]
  | .binary left operator right => by
    simp [item, sexpr, Sexp.chars, Sexp.tailChars, chars_item left, chars_item right]
  | .group inner => by simp [item, sexpr, Sexp.chars, Sexp.tailChars, chars_item inner]
  | .reference name => rfl
  | .assign name value => by
    simp [item, sexpr, Sexp.chars, Sexp.tailChars, Name.item, chars_item value]
  | .call callee arguments _ => by
    simp [item, sexpr, Sexp.chars, Sexp.tailChars, chars_item callee, tailChars_items arguments]
  | .get object property => by
    simp [item, sexpr, Sexp.chars, Sexp.tailChars, Name.item, chars_item object]
  | .set object property value => by
    simp [item, sexpr, Sexp.chars, Sexp.tailChars, Name.item, chars_item object, chars_item value]
  | .this _ => rfl

/-- Arguments are written as their items. -/
theorem Expr.tailChars_items : (es : List Expr) →
    Sexp.tailChars ' ' (Expr.items es) = (Expr.sexprTail es).toList
  | [] => rfl
  | e :: rest => by
    simp [items, sexprTail, Sexp.tailChars, chars_item e, tailChars_items rest]

end

/-- An expression that may be missing is written as its items. -/
theorem Expr.tailChars_optionItems (value : Option Expr) :
    Sexp.tailChars ' ' (Expr.optionItems value) = (Expr.sexprOption value).toList := by
  cases value with
  | none => rfl
  | some e => simp [optionItems, sexprOption, Sexp.tailChars, chars_item e]

mutual

/-- A statement is written as its item. -/
theorem Stmt.chars_item : (s : Stmt) → s.item.chars = s.sexpr.toList
  | .expression value => by
    simp [Stmt.item, Stmt.sexpr, Sexp.chars, Sexp.tailChars, Expr.chars_item value]
  | .print value => by
    simp [Stmt.item, Stmt.sexpr, Sexp.chars, Sexp.tailChars, Expr.chars_item value]
  | .declare name initial => by
    simp [Stmt.item, Stmt.sexpr, Sexp.chars, Sexp.tailChars, Name.item, Expr.tailChars_optionItems]
  | .block body => by simp [Stmt.item, Stmt.sexpr, Sexp.chars, Stmt.tailChars_items body]
  | .branch condition thenBranch none => by
    simp [Stmt.item, Stmt.sexpr, Sexp.chars, Sexp.tailChars, Expr.chars_item,
      Stmt.chars_item thenBranch]
  | .branch condition thenBranch (some elseBranch) => by
    simp [Stmt.item, Stmt.sexpr, Sexp.chars, Sexp.tailChars, Expr.chars_item,
      Stmt.chars_item thenBranch, Stmt.chars_item elseBranch]
  | .loop condition body => by
    simp [Stmt.item, Stmt.sexpr, Sexp.chars, Sexp.tailChars, Expr.chars_item, Stmt.chars_item body]
  | .leave _ value => by simp [Stmt.item, Stmt.sexpr, Sexp.chars, Expr.tailChars_optionItems]
  | .function declaration => by simp [Stmt.item, Stmt.sexpr, FunctionDecl.chars_item declaration]
  | .classOf ⟨name, methods⟩ => by
    simp [Stmt.item, Stmt.sexpr, ClassDecl.sexpr, Sexp.chars, Sexp.tailChars, Name.item,
      FunctionDecl.tailChars_items methods]

/-- Statements are written as their items. -/
theorem Stmt.tailChars_items : (body : List Stmt) →
    Sexp.tailChars ' ' (Stmt.items body) = (Stmt.sexprTail body).toList
  | [] => rfl
  | s :: rest => by
    simp [Stmt.items, Stmt.sexprTail, Sexp.tailChars, Stmt.chars_item s, Stmt.tailChars_items rest]

/-- A function is written as its item. -/
theorem FunctionDecl.chars_item : (f : FunctionDecl) → f.item.chars = f.sexpr.toList
  | ⟨name, params, body⟩ => by
    have hparams : Sexp.listChars ' ' (params.map Name.item) =
        (" ".intercalate (params.map Name.text)).toList :=
      Sexp.listChars_map (fun _ => rfl) rfl params
    have hlist : (Sexp.list (params.map Name.item)).chars =
        ("(" ++ " ".intercalate (params.map Name.text) ++ ")").toList := by
      rw [Sexp.chars_list, hparams]
      simp
    simp [FunctionDecl.item, FunctionDecl.sexpr, Sexp.chars, Sexp.tailChars, Name.item, hlist,
      Stmt.tailChars_items body]

/-- Functions are written as their items. -/
theorem FunctionDecl.tailChars_items : (methods : List FunctionDecl) →
    Sexp.tailChars ' ' (FunctionDecl.items methods) = (FunctionDecl.sexprTail methods).toList
  | [] => rfl
  | f :: rest => by
    simp [FunctionDecl.items, FunctionDecl.sexprTail, Sexp.tailChars, FunctionDecl.chars_item f,
      FunctionDecl.tailChars_items rest]

end

/-- The items of statements are theirs one by one. -/
theorem Stmt.items_eq_map (body : List Stmt) : Stmt.items body = body.map Stmt.item := by
  induction body with
  | nil => rfl
  | cons s rest ih => rw [items, ih, List.map_cons]

/-- The text of a program, as items on lines of their own. -/
theorem Program.toList_sexpr (program : Program) :
    program.sexpr.toList = Sexp.listChars '\n' (Stmt.items program.declarations) := by
  rw [Stmt.items_eq_map, sexpr]
  exact (Sexp.listChars_map Stmt.chars_item rfl program.declarations).symm

end Quill
