import Quill.Proofs.Grammar.Soundness

/-!
# Where trees occur

Code is given by the statements at its top level. A statement or expression occurs in it if it is one
of these or stands anywhere inside, in the bodies of functions and methods as well (`Stmt.Occurs`,
`FunctionDecl.Occurs`, `Expr.Occurs`). What holds of whole programs and is handed down from trees to
their parts holds of all that occurs, as `Stmt.Occurs.wellFormed` says of the shapes of the grammar.

`Stmt.declares` is about a single statement: the names that it may declare in the scope around it.
Where a statement has a shape of the grammar, these are its own name, if it is a declaration.

`Stmt.Parsed` is the code of all programs that are read from some source.
-/

namespace Quill

variable {code : Stmt → Prop}

/-- The statement is at the top level or stands inside a statement that occurs. -/
inductive Stmt.Occurs (code : Stmt → Prop) : Stmt → Prop
  | top {s} (h : code s) : Stmt.Occurs code s
  | block {body s} (h : Stmt.Occurs code (.block body)) (hs : s ∈ body) : Stmt.Occurs code s
  | thenBranch {condition thenBranch elseBranch}
    (h : Stmt.Occurs code (.branch condition thenBranch elseBranch)) : Stmt.Occurs code thenBranch
  | elseBranch {condition thenBranch elseBranch}
    (h : Stmt.Occurs code (.branch condition thenBranch (some elseBranch))) :
    Stmt.Occurs code elseBranch
  | loop {condition body} (h : Stmt.Occurs code (.loop condition body)) : Stmt.Occurs code body
  | function {f s} (h : Stmt.Occurs code (.function f)) (hs : s ∈ f.body) : Stmt.Occurs code s
  | method {c f s} (h : Stmt.Occurs code (.classOf c)) (hf : f ∈ c.methods) (hs : s ∈ f.body) :
    Stmt.Occurs code s

/-- The function is declared by a statement that occurs, or it is a method of such a class. -/
inductive FunctionDecl.Occurs (code : Stmt → Prop) : FunctionDecl → Prop
  | function {f} (h : Stmt.Occurs code (.function f)) : FunctionDecl.Occurs code f
  | method {c f} (h : Stmt.Occurs code (.classOf c)) (hf : f ∈ c.methods) :
    FunctionDecl.Occurs code f

/-- The statements in the body of a function that occurs do so too. -/
theorem FunctionDecl.Occurs.body {f : FunctionDecl} (h : f.Occurs code) :
    ∀ s ∈ f.body, s.Occurs code := by
  intro s hs
  cases h with
  | function h => exact .function h hs
  | method h hf => exact .method h hf hs

/-- The expression belongs to a statement that occurs, or to an expression that does. -/
inductive Expr.Occurs (code : Stmt → Prop) : Expr → Prop
  | effect {e} (h : Stmt.Occurs code (.expression e)) : Expr.Occurs code e
  | printed {e} (h : Stmt.Occurs code (.print e)) : Expr.Occurs code e
  | initial {name e} (h : Stmt.Occurs code (.declare name (some e))) : Expr.Occurs code e
  | condition {e thenBranch elseBranch}
    (h : Stmt.Occurs code (.branch e thenBranch elseBranch)) : Expr.Occurs code e
  | loopCondition {e body} (h : Stmt.Occurs code (.loop e body)) : Expr.Occurs code e
  | result {line e} (h : Stmt.Occurs code (.leave line (some e))) : Expr.Occurs code e
  | operand {operator e} (h : Expr.Occurs code (.unary operator e)) : Expr.Occurs code e
  | left {e operator right} (h : Expr.Occurs code (.binary e operator right)) : Expr.Occurs code e
  | right {left operator e} (h : Expr.Occurs code (.binary left operator e)) : Expr.Occurs code e
  | inner {e} (h : Expr.Occurs code (.group e)) : Expr.Occurs code e
  | assigned {name e} (h : Expr.Occurs code (.assign name e)) : Expr.Occurs code e
  | callee {e arguments line} (h : Expr.Occurs code (.call e arguments line)) : Expr.Occurs code e
  | argument {callee arguments line e} (h : Expr.Occurs code (.call callee arguments line))
    (he : e ∈ arguments) : Expr.Occurs code e
  | ofGet {e property} (h : Expr.Occurs code (.get e property)) : Expr.Occurs code e
  | ofSet {e property value} (h : Expr.Occurs code (.set e property value)) : Expr.Occurs code e
  | set {object property e} (h : Expr.Occurs code (.set object property e)) : Expr.Occurs code e

/-- The code binds the name or assigns to it somewhere. -/
inductive Targets (code : Stmt → Prop) : String → Prop
  | assigned {name value} (h : Expr.Occurs code (.assign name value)) : Targets code name.text
  | variable {name initial} (h : Stmt.Occurs code (.declare name initial)) : Targets code name.text
  | function {f} (h : Stmt.Occurs code (.function f)) : Targets code f.name.text
  | classOf {c} (h : Stmt.Occurs code (.classOf c)) : Targets code c.name.text
  | parameter {f name} (h : FunctionDecl.Occurs code f) (hname : name ∈ f.params) :
    Targets code name.text

/-! ## Shapes of the grammar -/

/-- What occurs in code that has a shape of the grammar has one itself. -/
theorem Stmt.Occurs.wellFormed {s : Stmt} (h : s.Occurs code)
    (hcode : ∀ s, code s → s.wellFormed = true) : s.wellFormed = true := by
  induction h with
  | top h => exact hcode _ h
  | block _ hs ih => exact Stmt.listWellFormed_iff.1 ih _ hs
  | @thenBranch condition thenBranch elseBranch _ ih =>
    cases elseBranch with
    | none =>
      simp only [Stmt.wellFormed, Bool.and_eq_true] at ih
      exact ih.2
    | some elseBranch =>
      simp only [Stmt.wellFormed, Bool.and_eq_true] at ih
      exact ih.1.1.1.2
  | elseBranch _ ih =>
    simp only [Stmt.wellFormed, Bool.and_eq_true] at ih
    exact ih.2
  | loop _ ih =>
    simp only [Stmt.wellFormed, Bool.and_eq_true] at ih
    exact ih.2
  | @function f s _ hs ih =>
    obtain ⟨name, params, body⟩ := f
    simp only [Stmt.wellFormed, FunctionDecl.wellFormed, Bool.and_eq_true] at ih
    exact Stmt.listWellFormed_iff.1 ih.2 _ hs
  | @method c f s _ hf hs ih =>
    obtain ⟨className, methods⟩ := c
    have hmethod := FunctionDecl.listWellFormed_iff.1 ih f hf
    obtain ⟨name, params, body⟩ := f
    simp only [FunctionDecl.wellFormed, Bool.and_eq_true] at hmethod
    exact Stmt.listWellFormed_iff.1 hmethod.2 _ hs

/-- An expression that occurs in code of the right shape has its own. -/
theorem Expr.Occurs.wellFormed {e : Expr} (h : e.Occurs code)
    (hcode : ∀ s, code s → s.wellFormed = true) : e.wellFormed = true := by
  induction h with
  | effect h => exact h.wellFormed hcode
  | printed h => exact h.wellFormed hcode
  | initial h => exact h.wellFormed hcode
  | @condition e thenBranch elseBranch h =>
    have hwf := h.wellFormed hcode
    cases elseBranch with
    | none =>
      simp only [Stmt.wellFormed, Bool.and_eq_true] at hwf
      exact hwf.1.1
    | some elseBranch =>
      simp only [Stmt.wellFormed, Bool.and_eq_true] at hwf
      exact hwf.1.1.1.1.1
  | loopCondition h =>
    have hwf := h.wellFormed hcode
    simp only [Stmt.wellFormed, Bool.and_eq_true] at hwf
    exact hwf.1.1
  | result h => exact h.wellFormed hcode
  | operand _ ih =>
    simp only [Expr.wellFormed, Bool.and_eq_true] at ih
    exact ih.2
  | left _ ih =>
    obtain ⟨-, -, -, -, hleft, -⟩ := wellFormed_binary ih
    exact hleft
  | right _ ih =>
    obtain ⟨-, -, -, -, -, hright⟩ := wellFormed_binary ih
    exact hright
  | callee _ ih =>
    simp only [Expr.wellFormed, Bool.and_eq_true] at ih
    exact ih.1.1.2
  | argument _ he ih =>
    simp only [Expr.wellFormed, Bool.and_eq_true] at ih
    exact listWellFormed_iff.1 ih.2 _ he
  | ofGet _ ih =>
    simp only [Expr.wellFormed, Bool.and_eq_true] at ih
    exact ih.2
  | ofSet _ ih =>
    simp only [Expr.wellFormed, Bool.and_eq_true] at ih
    exact ih.1.2
  | set _ ih =>
    simp only [Expr.wellFormed, Bool.and_eq_true] at ih
    exact ih.2
  | inner _ ih => exact ih
  | assigned _ ih => exact ih

/-! ## Declarations -/

/-- The name that the statement itself declares. -/
def Stmt.declared? : Stmt → Option String
  | .declare name _ => some name.text
  | .function declaration => some declaration.name.text
  | .classOf declaration => some declaration.name.text
  | _ => none

/-- The names that the statement may declare in the scope around it. A branch or the body of a loop
runs in that scope as well. -/
def Stmt.declares : Stmt → List String
  | .declare name _ => [name.text]
  | .branch _ thenBranch none => thenBranch.declares
  | .branch _ thenBranch (some elseBranch) => thenBranch.declares ++ elseBranch.declares
  | .loop _ body => body.declares
  | .function declaration => [declaration.name.text]
  | .classOf declaration => [declaration.name.text]
  | _ => []

/-- What is no declaration declares nothing: no declaration stands directly in a branch or a loop. -/
theorem Stmt.declares_eq_nil :
    (s : Stmt) → s.wellFormed = true → s.isDeclaration = false → s.declares = []
  | .expression _, _, _ => rfl
  | .print _, _, _ => rfl
  | .block _, _, _ => rfl
  | .leave _ _, _, _ => rfl
  | .branch _ thenBranch none, hwf, _ => by
    simp only [wellFormed, Bool.and_eq_true, Bool.not_eq_true'] at hwf
    exact declares_eq_nil thenBranch hwf.2 hwf.1.2
  | .branch _ thenBranch (some elseBranch), hwf, _ => by
    simp only [wellFormed, Bool.and_eq_true, Bool.not_eq_true'] at hwf
    obtain ⟨⟨⟨⟨⟨-, hthen⟩, hwft⟩, -⟩, helse⟩, hwfe⟩ := hwf
    rw [declares, declares_eq_nil thenBranch hwft hthen, declares_eq_nil elseBranch hwfe helse,
      List.append_nil]
  | .loop _ body, hwf, _ => by
    simp only [wellFormed, Bool.and_eq_true, Bool.not_eq_true'] at hwf
    exact declares_eq_nil body hwf.2 hwf.1.2

/-- A statement declares its own name, or nothing. -/
theorem Stmt.declares_of_wellFormed {s : Stmt} (hwf : s.wellFormed = true) :
    s.declares = s.declared?.toList := by
  cases s with
  | declare => rfl
  | function => rfl
  | classOf => rfl
  | _ => exact declares_eq_nil _ hwf rfl

/-! ## Code that is read from sources -/

/-- The statement is at the top level of a program that is read from a source. -/
def Stmt.Parsed (s : Stmt) : Prop :=
  ∃ source program, parse source = .ok program ∧ s ∈ program.declarations

/-- Every statement that is parsed has its shape. -/
theorem Stmt.Parsed.wellFormed {s : Stmt} (h : s.Parsed) : s.wellFormed = true := by
  obtain ⟨source, program, hparse, hs⟩ := h
  obtain ⟨-, hwf⟩ := spells_of_parse hparse
  exact Stmt.listWellFormed_iff.1 hwf s hs

end Quill
