import Quill.Proofs.Lines.Relabelling
import Quill.Proofs.Number.ReadBack
import Quill.Proofs.Tree.Legible
import Quill.Proofs.Tree.SexpItems

/-!
# Printed trees read back

The printed form of a program that is read from a source determines the program but for its lines,
and but for constants that are too large for a number: these are printed as `inf`, like a variable
of that name (`infinityNamed_eq_of_sexpr_eq`).

Items read back as trees (`Sexp.expr`, `Sexp.stmt`). What a word is, the lexer decides: names,
constants and operators are printed as they are spelled, so they are the only ones of their text.
-/

namespace Quill

/-! ## Constants that are too large -/

mutual

/-- The expression with a variable instead of each constant that is printed as one. -/
def Expr.infinityNamed : Expr → Expr
  | .literal (.number value) line =>
    if value.isFinite then .literal (.number value) line else .reference ⟨"inf", line⟩
  | .literal value line => .literal value line
  | .unary operator operand => .unary operator operand.infinityNamed
  | .binary left operator right => .binary left.infinityNamed operator right.infinityNamed
  | .group inner => .group inner.infinityNamed
  | .reference name => .reference name
  | .assign name value => .assign name value.infinityNamed
  | .call callee arguments line =>
    .call callee.infinityNamed (Expr.listInfinityNamed arguments) line
  | .get object property => .get object.infinityNamed property
  | .set object property value => .set object.infinityNamed property value.infinityNamed
  | .this line => .this line

/-- The expressions with variables instead of these constants. -/
def Expr.listInfinityNamed : List Expr → List Expr
  | [] => []
  | e :: rest => e.infinityNamed :: Expr.listInfinityNamed rest

end

mutual

/-- The statement with variables instead of these constants. -/
def Stmt.infinityNamed : Stmt → Stmt
  | .expression value => .expression value.infinityNamed
  | .print value => .print value.infinityNamed
  | .declare name initial => .declare name (initial.map Expr.infinityNamed)
  | .block body => .block (Stmt.listInfinityNamed body)
  | .branch condition thenBranch none =>
    .branch condition.infinityNamed thenBranch.infinityNamed none
  | .branch condition thenBranch (some elseBranch) =>
    .branch condition.infinityNamed thenBranch.infinityNamed (some elseBranch.infinityNamed)
  | .loop condition body => .loop condition.infinityNamed body.infinityNamed
  | .leave line value => .leave line (value.map Expr.infinityNamed)
  | .function declaration => .function declaration.infinityNamed
  | .classOf ⟨name, methods⟩ => .classOf ⟨name, FunctionDecl.listInfinityNamed methods⟩

/-- The statements with variables instead of these constants. -/
def Stmt.listInfinityNamed : List Stmt → List Stmt
  | [] => []
  | s :: rest => s.infinityNamed :: Stmt.listInfinityNamed rest

/-- The function with variables instead of these constants. -/
def FunctionDecl.infinityNamed : FunctionDecl → FunctionDecl
  | ⟨name, params, body⟩ => ⟨name, params, Stmt.listInfinityNamed body⟩

/-- The functions with variables instead of these constants. -/
def FunctionDecl.listInfinityNamed : List FunctionDecl → List FunctionDecl
  | [] => []
  | f :: rest => f.infinityNamed :: FunctionDecl.listInfinityNamed rest

end

/-- The program with variables instead of these constants. -/
def Program.infinityNamed (program : Program) : Program :=
  ⟨Stmt.listInfinityNamed program.declarations⟩

/-! ## Reading items -/

/-- The kind of token that a text is. -/
def Kind.ofText (text : String) : Kind :=
  ((Taken.first? text.toList).map Taken.kind).getD .unknown

/-- The kind of a token is known from its text. -/
theorem Kind.ofText_of_spelled {kind : Kind} {text : String} (h : Spelled kind text.toList) :
    Kind.ofText text = kind := by
  have hfirst := Taken.first?_of_spelled h (maximal_nil kind text.toList)
  rw [List.append_nil] at hfirst
  rw [Kind.ofText, hfirst]
  rfl

/-- The expression that a token of a kind is by itself. -/
def Expr.ofKind (text : String) : Kind → Expr
  | .number value => .literal (.number value) 0
  | .keyword .trueWord => .literal (.boolean true) 0
  | .keyword .falseWord => .literal (.boolean false) 0
  | .keyword .nilWord => .literal .nil 0
  | .keyword .thisWord => .this 0
  | _ => .reference ⟨text, 0⟩

/-- The function that a statement declares. -/
def Stmt.function? : Stmt → Option FunctionDecl
  | .function declaration => some declaration
  | _ => none

namespace Sexp

/-- The operator of a text. -/
def operator (text : String) : Token :=
  ⟨Kind.ofText text, text, 0⟩

/-- The name that an item is. -/
def name : Sexp → Name
  | word text => ⟨text, 0⟩
  | _ => ⟨"", 0⟩

mutual

/-- The expression that an item is. -/
def expr : Sexp → Expr
  | word text => Expr.ofKind text (Kind.ofText text)
  | quoted contents => .literal (.string contents) 0
  | list (.word "call" :: callee :: arguments) => .call callee.expr (exprs arguments) 0
  | list [.word "group", inner] => .group inner.expr
  | list [.word "=", target, value] => .assign target.name value.expr
  | list [.word ".", object, property] => .get object.expr property.name
  | list [.word ".=", object, property, value] => .set object.expr property.name value.expr
  | list [.word text, operand] => .unary (operator text) operand.expr
  | list [.word text, left, right] => .binary left.expr (operator text) right.expr
  | list _ => .this 0

/-- The expressions that items are. -/
def exprs : List Sexp → List Expr
  | [] => []
  | item :: rest => item.expr :: exprs rest

end

mutual

/-- The statement that an item is. -/
def stmt : Sexp → Stmt
  | list [.word "expr", value] => .expression value.expr
  | list [.word "print", value] => .print value.expr
  | list [.word "let", target] => .declare target.name none
  | list [.word "let", target, initial] => .declare target.name (some initial.expr)
  | list (.word "block" :: body) => .block (stmts body)
  | list [.word "if", condition, thenBranch] => .branch condition.expr thenBranch.stmt none
  | list [.word "if", condition, thenBranch, elseBranch] =>
    .branch condition.expr thenBranch.stmt (some elseBranch.stmt)
  | list [.word "while", condition, body] => .loop condition.expr body.stmt
  | list [.word "return"] => .leave 0 none
  | list [.word "return", value] => .leave 0 (some value.expr)
  | list (.word "fn" :: target :: list params :: body) =>
    .function ⟨target.name, params.map name, stmts body⟩
  | list (.word "class" :: target :: methods) =>
    .classOf ⟨target.name, (stmts methods).filterMap Stmt.function?⟩
  | _ => .block []

/-- The statements that items are. -/
def stmts : List Sexp → List Stmt
  | [] => []
  | item :: rest => item.stmt :: stmts rest

end

end Sexp

/-! ## Words -/

/-- No character of a word is a delimiter. -/
theorem isDelimiter_of_isWordRest {c : Char} (h : isWordRest c = true) : isDelimiter c = false := by
  refine Bool.eq_false_iff.2 fun hdelimiter => ?_
  simp only [isDelimiter, Bool.or_eq_true, beq_iff_eq] at hdelimiter
  rcases hdelimiter with (((rfl | rfl) | rfl) | rfl) | rfl <;> exact absurd h (by decide)

/-- A word is a closed item. -/
theorem IsWord.closed {text : String} (h : IsWord text) : Sexp.Closed (.word text) := by
  refine .word ?_ fun c hc => isDelimiter_of_isWordRest (h.isWordRest c hc)
  obtain ⟨c, cs, htext, -⟩ := h.exists_cons
  rw [htext]
  exact List.cons_ne_nil _ _

/-- Lexemes of numbers have no delimiters. -/
theorem Spelled.number_closed {value : Number} {text : String}
    (h : Spelled (.number value) text.toList) : Sexp.Closed (.word text) := by
  have hdigit : ∀ {digits : List Char}, (∀ c ∈ digits, isDigit c = true) →
      ∀ c ∈ digits, isDelimiter c = false :=
    fun hall c hc => isDelimiter_of_isWordRest (isWordRest_of_isDigit (hall c hc))
  generalize hlexeme : text.toList = lexeme at h
  cases h with
  | integer hsome hall => exact .word (hlexeme ▸ hsome) (hlexeme ▸ hdigit hall)
  | fraction hwhole hallWhole hsome hall =>
    refine .word (by simp [hlexeme]) (hlexeme ▸ ?_)
    exact List.forall_mem_append.2
      ⟨hdigit hallWhole, List.forall_mem_cons.2 ⟨by decide, hdigit hall⟩⟩

/-- The words that lists start with, other than operators. -/
def Sexp.heads : List String :=
  ["call", "group", "=", ".", ".=", "expr", "print", "let", "block", "if", "while", "return", "fn",
    "class"]

/-- A list behind one of the words that lists start with is closed if its items are. -/
theorem Sexp.closed_headed {head : String} {items : List Sexp} (hhead : head ∈ heads)
    (h : ∀ item ∈ items, item.Closed) : Closed (.list (.word head :: items)) := by
  have hword : ∀ head ∈ heads,
      (!head.toList.isEmpty && head.toList.all fun c => !isDelimiter c) = true := by
    decide
  exact .list (List.forall_mem_cons.2 ⟨closed_word (hword head hhead), h⟩)

namespace Token.IsOperator

variable {t : Token} {s : Symbol}

/-- The text of an operator is that of no other. -/
theorem operator_lexeme (h : t.IsOperator s) : Sexp.operator t.lexeme = t.mapLine noLine := by
  have hspelled : Spelled (.symbol s) t.lexeme.toList :=
    .symbol (by rw [String.ofList_toList, h.text])
  rw [Sexp.operator, Kind.ofText_of_spelled hspelled, ← h.kind]
  rfl

/-- An operator before an operand is a closed item. -/
theorem closed_unary (h : t.IsOperator s) (hs : s = .bang ∨ s = .minus) :
    Sexp.Closed (.word t.lexeme) := by
  rw [h.text]
  rcases hs with rfl | rfl <;> exact Sexp.closed_word (by decide)

/-- An operator between operands is a closed item. -/
theorem closed_binary (h : t.IsOperator s) {tier : Nat} (hs : s.tier? = some tier) :
    Sexp.Closed (.word t.lexeme) := by
  rw [h.text]
  cases s <;> first | exact Sexp.closed_word (by decide) | cases hs

end Token.IsOperator

/-! ## Trees read back -/

/-- The item has one reading, and it reads back as the expression. -/
structure Expr.ReadsBack (e : Expr) : Prop where
  closed : e.item.Closed
  expr : e.item.expr = e.infinityNamed.mapLines noLine

/-- What infinity is printed as is a name. -/
theorem isWord_inf : IsWord "inf" :=
  .identifier (by decide) (List.all_eq_true.1 (by decide)) fun k => by cases k <;> decide

/-- A number is printed as itself or, if it is infinite, as a variable. -/
theorem Literal.readsBack_number {value : Number} {line : Nat} {lexeme : List Char}
    (h : Spelled (.number value) lexeme) : (Expr.literal (.number value) line).ReadsBack := by
  obtain ⟨hsign, hnan⟩ := Number.unsigned_of_spelled h
  cases hfinite : value.isFinite with
  | true =>
    have hspelled : Spelled (.number value) value.text.toList := by
      rw [Number.text, String.toList_ofList]
      exact Number.spelled_chars hsign hfinite
    refine ⟨hspelled.number_closed, ?_⟩
    rw [Expr.item, item, Sexp.expr, Kind.ofText_of_spelled hspelled, Expr.infinityNamed,
      hfinite, if_pos rfl]
    rfl
  | false =>
    have htext : value.text = "inf" := by
      rw [Number.text, Number.chars_of_not_isFinite hsign hnan hfinite]
      rfl
    constructor
    · rw [Expr.item, item, htext]
      exact isWord_inf.closed
    · rw [Expr.item, item, htext, Sexp.expr, Kind.ofText_of_spelled isWord_inf,
        Expr.infinityNamed, hfinite]
      rfl

/-- A reserved word is read as the expression of its kind. -/
theorem Sexp.expr_keyword (k : Keyword) :
    (Sexp.word k.text).expr = Expr.ofKind k.text (.keyword k) := by
  rw [expr, Kind.ofText_of_spelled (.keyword String.ofList_toList)]

/-- A constant reads back, or as a variable if it is printed as one. -/
theorem Literal.readsBack {value : Literal} {line : Nat}
    (h : (Mark.placed value.kind line).Legible) : (Expr.literal value line).ReadsBack := by
  obtain ⟨lexeme, hspelled⟩ := h.literal
  cases value with
  | number => exact readsBack_number hspelled
  | string contents =>
    rw [kind] at hspelled
    cases hspelled with
    | string hquote => exact ⟨.quoted (by rwa [String.toList_ofList]), rfl⟩
  | boolean b =>
    cases b with
    | true => exact ⟨Sexp.closed_word (by decide), Sexp.expr_keyword .trueWord⟩
    | false => exact ⟨Sexp.closed_word (by decide), Sexp.expr_keyword .falseWord⟩
  | nil => exact ⟨Sexp.closed_word (by decide), Sexp.expr_keyword .nilWord⟩

mutual

/-- Expressions read back. -/
theorem Expr.readsBack : (e : Expr) → Legible e.spelling → e.wellFormed = true → e.ReadsBack
  | .literal value line, hlegible, _ => Literal.readsBack (legible_cons.1 hlegible).1
  | .unary operator operand, hlegible, hwf => by
    rw [spelling, legible_cons] at hlegible
    simp only [wellFormed, Bool.and_eq_true, Bool.or_eq_true, beq_iff_eq] at hwf
    have hoperand := readsBack operand hlegible.2 hwf.2
    obtain ⟨s, hs, hoperator⟩ := hlegible.1.before hwf.1.1
    refine ⟨.list (by simp [hoperator.closed_unary hs, hoperand.closed]), ?_⟩
    rw [item, infinityNamed, mapLines, ← hoperand.expr, ← hoperator.operator_lexeme, hoperator.text]
    rcases hs with rfl | rfl <;> rfl
  | .binary left operator right, hlegible, hwf => by
    rw [spelling, legible_append, legible_cons] at hlegible
    obtain ⟨tier, htier, -, -, hwfleft, hwfright⟩ := wellFormed_binary hwf
    have hleft := readsBack left hlegible.1 hwfleft
    have hright := readsBack right hlegible.2.2 hwfright
    obtain ⟨s, hs, hoperator⟩ := hlegible.2.1.between htier
    refine ⟨.list (by simp [hoperator.closed_binary hs, hleft.closed, hright.closed]), ?_⟩
    rw [item, infinityNamed, mapLines, ← hleft.expr, ← hright.expr, ← hoperator.operator_lexeme,
      hoperator.text]
    cases s <;> first | rfl | cases hs
  | .group inner, hlegible, hwf => by
    rw [spelling, List.cons_append, legible_cons, legible_append] at hlegible
    have hinner := readsBack inner hlegible.2.1 hwf
    refine ⟨Sexp.closed_headed (by decide) (by simp [hinner.closed]), ?_⟩
    rw [item, Sexp.expr, infinityNamed, mapLines, hinner.expr]
  | .reference name, hlegible, _ => by
    have hname := (legible_cons.1 hlegible).1.name
    refine ⟨hname.closed, ?_⟩
    rw [item, Name.item, Sexp.expr, Kind.ofText_of_spelled hname]
    rfl
  | .assign name value, hlegible, hwf => by
    simp only [spelling, legible_cons] at hlegible
    have hname := hlegible.1.name
    have hvalue := readsBack value hlegible.2.2 hwf
    refine ⟨Sexp.closed_headed (by decide) (by simp [Name.item, hname.closed, hvalue.closed]), ?_⟩
    rw [item, Sexp.expr, infinityNamed, mapLines, hvalue.expr]
    rfl
  | .call callee arguments _, hlegible, hwf => by
    simp only [spelling, legible_append, legible_cons] at hlegible
    simp only [wellFormed, Bool.and_eq_true] at hwf
    have hcallee := readsBack callee hlegible.1.1 hwf.1.1.2
    have harguments := items_readBack arguments (fun e he => hlegible.1.2.2.part (by
      rw [listSpelling_eq_map]
      exact infix_commaSeparated (List.mem_map_of_mem he))) hwf.2
    refine ⟨Sexp.closed_headed (by decide)
      (List.forall_mem_cons.2 ⟨hcallee.closed, harguments.1⟩), ?_⟩
    rw [item, Sexp.expr, infinityNamed, mapLines, hcallee.expr, harguments.2]
    rfl
  | .get object property, hlegible, hwf => by
    simp only [spelling, legible_append, legible_cons] at hlegible
    simp only [wellFormed, Bool.and_eq_true] at hwf
    have hobject := readsBack object hlegible.1 hwf.2
    have hname := hlegible.2.2.1.name
    refine ⟨Sexp.closed_headed (by decide) (by simp [Name.item, hname.closed, hobject.closed]), ?_⟩
    rw [item, Sexp.expr, infinityNamed, mapLines, hobject.expr]
    rfl
  | .set object property value, hlegible, hwf => by
    simp only [spelling, legible_append, legible_cons] at hlegible
    simp only [wellFormed, Bool.and_eq_true] at hwf
    have hobject := readsBack object hlegible.1 hwf.1.2
    have hname := hlegible.2.2.1.name
    have hvalue := readsBack value hlegible.2.2.2.2 hwf.2
    refine ⟨Sexp.closed_headed (by decide)
      (by simp [Name.item, hname.closed, hobject.closed, hvalue.closed]), ?_⟩
    rw [item, Sexp.expr, infinityNamed, mapLines, hobject.expr, hvalue.expr]
    rfl
  | .this _, _, _ => ⟨Sexp.closed_word (by decide), Sexp.expr_keyword .thisWord⟩

/-- Expressions read back one by one. -/
theorem Expr.items_readBack : (es : List Expr) → (∀ e ∈ es, Legible e.spelling) →
    listWellFormed es = true → (∀ item ∈ items es, item.Closed) ∧
      Sexp.exprs (items es) = listMapLines noLine (listInfinityNamed es)
  | [], _, _ => ⟨nofun, rfl⟩
  | e :: rest, hlegible, hwf => by
    simp only [listWellFormed, Bool.and_eq_true] at hwf
    have hhead := readsBack e (hlegible e List.mem_cons_self) hwf.1
    have hrest := items_readBack rest (fun e' he' => hlegible e' (.tail _ he')) hwf.2
    refine ⟨List.forall_mem_cons.2 ⟨hhead.closed, hrest.1⟩, ?_⟩
    rw [items, Sexp.exprs, listInfinityNamed, listMapLines, hhead.expr, hrest.2]

end

/-- What may be missing reads back as well. -/
theorem Expr.readsBack_of_mem {lead : List Mark} {value : Option Expr}
    (hlegible : Legible (optionSpelling lead value)) (hwf : optionWellFormed value = true) :
    ∀ e ∈ value, e.ReadsBack := by
  rintro e ⟨⟩
  exact readsBack e (legible_append.1 hlegible).2 hwf

/-- The item has one reading, and it reads back as the statement. -/
structure Stmt.ReadsBack (s : Stmt) : Prop where
  closed : s.item.Closed
  stmt : s.item.stmt = s.infinityNamed.mapLines noLine

/-- The item has one reading, and it reads back as the function. -/
structure FunctionDecl.ReadsBack (f : FunctionDecl) : Prop where
  closed : f.item.Closed
  stmt : f.item.stmt = .function (f.infinityNamed.mapLines noLine)

/-- A variable reads back if its value does. -/
theorem Stmt.declare_readsBack {name : Name} {initial : Option Expr} (hname : IsWord name.text)
    (h : ∀ e ∈ initial, e.ReadsBack) : (Stmt.declare name initial).ReadsBack := by
  cases initial with
  | none =>
    exact ⟨Sexp.closed_headed (by decide)
      (by simp [Expr.optionItems, Name.item, hname.closed]), rfl⟩
  | some e =>
    have he := h e rfl
    refine ⟨Sexp.closed_headed (by decide)
      (by simp [Expr.optionItems, Name.item, hname.closed, he.closed]), ?_⟩
    rw [item, Expr.optionItems, Sexp.stmt, infinityNamed, mapLines, he.expr]
    rfl

/-- A return reads back if its value does. -/
theorem Stmt.leave_readsBack {line : Nat} {value : Option Expr} (h : ∀ e ∈ value, e.ReadsBack) :
    (Stmt.leave line value).ReadsBack := by
  cases value with
  | none => exact ⟨Sexp.closed_headed (by decide) nofun, rfl⟩
  | some e =>
    have he := h e rfl
    refine ⟨Sexp.closed_headed (by decide) (by simp [Expr.optionItems, he.closed]), ?_⟩
    rw [item, Expr.optionItems, Sexp.stmt, infinityNamed, mapLines, he.expr]
    rfl

mutual

/-- Statements read back. -/
theorem Stmt.readsBack : (s : Stmt) → Legible s.spelling → s.wellFormed = true → s.ReadsBack
  | .expression value, hlegible, hwf => by
    simp only [Stmt.spelling, legible_append] at hlegible
    have hvalue := value.readsBack hlegible.1 hwf
    refine ⟨Sexp.closed_headed (by decide) (by simp [hvalue.closed]), ?_⟩
    rw [Stmt.item, Sexp.stmt, Stmt.infinityNamed, Stmt.mapLines, hvalue.expr]
  | .print value, hlegible, hwf => by
    simp only [Stmt.spelling, legible_append, List.cons_append, legible_cons] at hlegible
    have hvalue := value.readsBack hlegible.2.1 hwf
    refine ⟨Sexp.closed_headed (by decide) (by simp [hvalue.closed]), ?_⟩
    rw [Stmt.item, Sexp.stmt, Stmt.infinityNamed, Stmt.mapLines, hvalue.expr]
  | .declare name initial, hlegible, hwf => by
    simp only [Stmt.spelling, legible_append, List.cons_append, legible_cons] at hlegible
    exact Stmt.declare_readsBack hlegible.2.1.name (Expr.readsBack_of_mem hlegible.2.2.1 hwf)
  | .block body, hlegible, hwf => by
    simp only [Stmt.spelling, legible_append, List.cons_append, legible_cons] at hlegible
    obtain ⟨hclosed, hstmts⟩ := Stmt.items_readBack body hlegible.2.1 hwf
    refine ⟨Sexp.closed_headed (by decide) hclosed, ?_⟩
    rw [Stmt.item, Sexp.stmt, Stmt.infinityNamed, Stmt.mapLines, hstmts]
  | .branch condition thenBranch none, hlegible, hwf => by
    simp only [Stmt.spelling, legible_append, List.cons_append, legible_cons] at hlegible
    simp only [Stmt.wellFormed, Bool.and_eq_true] at hwf
    have hcondition := condition.readsBack hlegible.2.2.1 hwf.1.1
    have hthen := Stmt.readsBack thenBranch hlegible.2.2.2.2 hwf.2
    refine ⟨Sexp.closed_headed (by decide) (by simp [hcondition.closed, hthen.closed]), ?_⟩
    rw [Stmt.item, Sexp.stmt, Stmt.infinityNamed, Stmt.mapLines, hcondition.expr, hthen.stmt]
  | .branch condition thenBranch (some elseBranch), hlegible, hwf => by
    simp only [Stmt.spelling, legible_append, List.cons_append, legible_cons] at hlegible
    simp only [Stmt.wellFormed, Bool.and_eq_true] at hwf
    have hcondition := condition.readsBack hlegible.2.2.1.1 hwf.1.1.1.1.1
    have hthen := Stmt.readsBack thenBranch hlegible.2.2.1.2.2 hwf.1.1.1.2
    have helse := Stmt.readsBack elseBranch hlegible.2.2.2.2 hwf.2
    refine ⟨Sexp.closed_headed (by decide)
      (by simp [hcondition.closed, hthen.closed, helse.closed]), ?_⟩
    rw [Stmt.item, Sexp.stmt, Stmt.infinityNamed, Stmt.mapLines, hcondition.expr, hthen.stmt,
      helse.stmt]
  | .loop condition body, hlegible, hwf => by
    simp only [Stmt.spelling, legible_append, List.cons_append, legible_cons] at hlegible
    simp only [Stmt.wellFormed, Bool.and_eq_true] at hwf
    have hcondition := condition.readsBack hlegible.2.2.1 hwf.1.1
    have hbody := Stmt.readsBack body hlegible.2.2.2.2 hwf.2
    refine ⟨Sexp.closed_headed (by decide) (by simp [hcondition.closed, hbody.closed]), ?_⟩
    rw [Stmt.item, Sexp.stmt, Stmt.infinityNamed, Stmt.mapLines, hcondition.expr, hbody.stmt]
  | .leave line value, hlegible, hwf => by
    simp only [Stmt.spelling, legible_append, List.cons_append, legible_cons] at hlegible
    exact Stmt.leave_readsBack (Expr.readsBack_of_mem hlegible.2.1 hwf)
  | .function declaration, hlegible, hwf => by
    rw [Stmt.spelling, legible_cons] at hlegible
    have hdeclaration := FunctionDecl.readsBack declaration hlegible.2 hwf
    refine ⟨hdeclaration.closed, ?_⟩
    rw [Stmt.item, hdeclaration.stmt, Stmt.infinityNamed, Stmt.mapLines]
  | .classOf ⟨name, methods⟩, hlegible, hwf => by
    simp only [Stmt.spelling, legible_append, List.cons_append, legible_cons] at hlegible
    have hname := hlegible.2.1.name
    obtain ⟨hclosed, hstmts⟩ := FunctionDecl.items_readBack methods hlegible.2.2.2.1 hwf
    refine ⟨Sexp.closed_headed (by decide) (List.forall_mem_cons.2 ⟨hname.closed, hclosed⟩), ?_⟩
    rw [Stmt.item, Sexp.stmt, Stmt.infinityNamed, Stmt.mapLines, hstmts]
    rfl

/-- Statements read back one by one. -/
theorem Stmt.items_readBack : (body : List Stmt) → Legible (Stmt.listSpelling body) →
    Stmt.listWellFormed body = true → (∀ item ∈ Stmt.items body, item.Closed) ∧
      Sexp.stmts (Stmt.items body) = Stmt.listMapLines noLine (Stmt.listInfinityNamed body)
  | [], _, _ => ⟨nofun, rfl⟩
  | s :: rest, hlegible, hwf => by
    rw [Stmt.listSpelling, legible_append] at hlegible
    simp only [Stmt.listWellFormed, Bool.and_eq_true] at hwf
    have hhead := Stmt.readsBack s hlegible.1 hwf.1
    obtain ⟨hclosed, hstmts⟩ := Stmt.items_readBack rest hlegible.2 hwf.2
    refine ⟨List.forall_mem_cons.2 ⟨hhead.closed, hclosed⟩, ?_⟩
    rw [Stmt.items, Sexp.stmts, Stmt.listInfinityNamed, Stmt.listMapLines, hhead.stmt, hstmts]

/-- Functions read back. -/
theorem FunctionDecl.readsBack : (f : FunctionDecl) → Legible f.spelling → f.wellFormed = true →
    f.ReadsBack
  | ⟨name, params, body⟩, hlegible, hwf => by
    simp only [FunctionDecl.wellFormed, Bool.and_eq_true] at hwf
    have hname := (FunctionDecl.mark_name hlegible).name
    have hparams : ∀ item ∈ params.map Name.item, item.Closed := by
      intro item hitem
      obtain ⟨p, hp, rfl⟩ := List.mem_map.1 hitem
      exact (FunctionDecl.mark_param hlegible hp).name.closed
    have hnames : (params.map Name.item).map Sexp.name = params.map (Name.mapLine noLine) := by
      rw [List.map_map]
      rfl
    simp only [FunctionDecl.spelling, legible_append, List.cons_append, legible_cons] at hlegible
    obtain ⟨hclosed, hstmts⟩ := Stmt.items_readBack body hlegible.2.2.1.2.2.2 hwf.2
    refine ⟨Sexp.closed_headed (by decide) (List.forall_mem_cons.2 ⟨hname.closed,
      List.forall_mem_cons.2 ⟨.list hparams, hclosed⟩⟩), ?_⟩
    rw [FunctionDecl.item, Sexp.stmt, FunctionDecl.infinityNamed, FunctionDecl.mapLines, hstmts,
      hnames]
    rfl

/-- Functions read back one by one. -/
theorem FunctionDecl.items_readBack : (methods : List FunctionDecl) →
    Legible (FunctionDecl.methodSpelling methods) → FunctionDecl.listWellFormed methods = true →
    (∀ item ∈ FunctionDecl.items methods, item.Closed) ∧
      (Sexp.stmts (FunctionDecl.items methods)).filterMap Stmt.function? =
        FunctionDecl.listMapLines noLine (FunctionDecl.listInfinityNamed methods)
  | [], _, _ => ⟨nofun, rfl⟩
  | f :: rest, hlegible, hwf => by
    simp only [FunctionDecl.methodSpelling, legible_append, List.cons_append, legible_cons]
      at hlegible
    simp only [FunctionDecl.listWellFormed, Bool.and_eq_true] at hwf
    have hhead := FunctionDecl.readsBack f hlegible.2.2.1 hwf.1
    obtain ⟨hclosed, hstmts⟩ := FunctionDecl.items_readBack rest hlegible.2.2.2 hwf.2
    refine ⟨List.forall_mem_cons.2 ⟨hhead.closed, hclosed⟩, ?_⟩
    rw [FunctionDecl.items, Sexp.stmts, hhead.stmt, FunctionDecl.listInfinityNamed,
      FunctionDecl.listMapLines, ← hstmts]
    rfl

end

/-! ## Programs -/

/-- The printed form of a program that is read from a source determines the program, but for its
lines and for infinite constants, which are printed like a variable. -/
theorem infinityNamed_eq_of_sexpr_eq {source source' : String} {program program' : Program}
    (hparse : parse source = .ok program) (hparse' : parse source' = .ok program')
    (hsexpr : program.sexpr = program'.sexpr) :
    program.infinityNamed.mapLines noLine = program'.infinityNamed.mapLines noLine := by
  obtain ⟨hclosed, hstmts⟩ := Stmt.items_readBack program.declarations (legible_of_parse hparse)
    (spells_of_parse hparse).2
  obtain ⟨hclosed', hstmts'⟩ := Stmt.items_readBack program'.declarations
    (legible_of_parse hparse') (spells_of_parse hparse').2
  have hitems : Stmt.items program.declarations = Stmt.items program'.declarations := by
    refine Sexp.listChars_inj hclosed hclosed' (.inr rfl) ?_
    rw [← Program.toList_sexpr, ← Program.toList_sexpr, hsexpr]
  exact congrArg Program.mk (hstmts.symm.trans ((congrArg Sexp.stmts hitems).trans hstmts'))

/-- The two ways to write the number are printed as one. -/
theorem infinityNamed_eq_of_sexpr_eq_zeros :
    ∃ program program', parse "print 1.0;" = .ok program ∧ parse "\nprint 1;" = .ok program'
      ∧ program.sexpr = program'.sexpr
      ∧ program.infinityNamed.mapLines noLine = program'.infinityNamed.mapLines noLine := by
  have hprinted : ∀ source ∈ ["print 1.0;", "\nprint 1;"],
      (parse source).toOption.map Program.sexpr = some "(print 1)" := by
    decide +kernel
  obtain ⟨program, hsome, hsexpr⟩ := Option.map_eq_some_iff.1 (hprinted "print 1.0;" (by simp))
  obtain ⟨program', hsome', hsexpr'⟩ := Option.map_eq_some_iff.1 (hprinted "\nprint 1;" (by simp))
  have hparse := parse_eq_ok_of_toOption hsome
  have hparse' := parse_eq_ok_of_toOption hsome'
  have hsame := hsexpr.trans hsexpr'.symm
  exact ⟨program, program', hparse, hparse', hsame,
    infinityNamed_eq_of_sexpr_eq hparse hparse' hsame⟩

end Quill
