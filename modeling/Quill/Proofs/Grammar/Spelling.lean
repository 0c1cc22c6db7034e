import Quill.Grammar.Cursor

/-!
# The spelling of trees

A tree keeps less than its tokens: punctuation is gone, and so is the text of a constant. What it
does keep of each token is a `Mark`, and the marks of a tree in the order of the source are its
*spelling*. `Spells marks tokens` says that tokens are what the marks describe, one token a mark.

* `Expr.spelling`, `Stmt.spelling`, `Program.spelling`: the marks of trees. Every line that a tree
  holds stands in exactly one mark, so spelled tokens are on the lines that the tree says.
* `Mark.gap` stands between the methods of a class. It is the only mark that is not one token: any
  number of tokens may stand there that neither start a method nor end the class.
* `spells_append`: a spelling splits where its marks do.
-/

namespace Quill

/-! ## Marks -/

/-- The kind of the token that a constant is written as. -/
def Literal.kind : Literal → Kind
  | .number value => .number value
  | .string contents => .string contents
  | .boolean true => .keyword .trueWord
  | .boolean false => .keyword .falseWord
  | .nil => .keyword .nilWord

/-- What a tree fixes of a token in its spelling. -/
inductive Mark where
  /-- A token of a kind, on any line. -/
  | plain (kind : Kind)
  /-- A token of a kind whose line the tree holds. -/
  | placed (kind : Kind) (line : Nat)
  /-- A name, with its text and line. -/
  | name (name : Name)
  /-- An operator, which the tree holds as a token. -/
  | operator (token : Token)
  /-- Tokens between the methods of a class, which the tree does not hold at all. -/
  | gap

namespace Mark

/-- A symbol that the tree does not hold. -/
abbrev symbol (s : Symbol) : Mark := plain (.symbol s)

/-- A reserved word that the tree does not hold. -/
abbrev word (k : Keyword) : Mark := plain (.keyword k)

/-- The token is what the mark describes. No single token is a gap. -/
def Admits : Mark → Token → Prop
  | plain kind, t => t.kind = kind
  | placed kind line, t => t.kind = kind ∧ t.line = line
  | name n, t => t.kind = .identifier ∧ t.lexeme = n.text ∧ t.line = n.line
  | operator token, t => t = token
  | gap, _ => False

end Mark

/-- A token that a class body may hold outside of its methods: it neither starts a method nor ends
the class. -/
def Token.isFiller (t : Token) : Bool :=
  t.kind != .keyword .fnWord && t.kind != .symbol .rightBrace

/-- The tokens are what the marks describe, in order and without remainder. -/
def Spells : List Mark → List Token → Prop
  | [], tokens => tokens = []
  | .gap :: marks, tokens =>
    ∃ passed rest, tokens = passed ++ rest ∧ (∀ t ∈ passed, t.isFiller) ∧ Spells marks rest
  | mark :: marks, tokens => ∃ t rest, tokens = t :: rest ∧ mark.Admits t ∧ Spells marks rest

/-! ## Trees -/

/-- Lists of marks with commas between them. -/
def commaSeparated : List (List Mark) → List Mark
  | [] => []
  | [marks] => marks
  | marks :: rest => marks ++ .symbol .comma :: commaSeparated rest

mutual

/-- The spelling of an expression. -/
def Expr.spelling : Expr → List Mark
  | .literal value line => [.placed value.kind line]
  | .unary operator operand => .operator operator :: operand.spelling
  | .binary left operator right => left.spelling ++ .operator operator :: right.spelling
  | .group inner => .symbol .leftParen :: inner.spelling ++ [.symbol .rightParen]
  | .reference name => [.name name]
  | .assign name value => .name name :: .symbol .equal :: value.spelling
  | .call callee arguments line =>
    callee.spelling ++ .symbol .leftParen :: commaSeparated (Expr.listSpelling arguments)
      ++ [.placed (.symbol .rightParen) line]
  | .get object property => object.spelling ++ [.symbol .dot, .name property]
  | .set object property value =>
    object.spelling ++ .symbol .dot :: .name property :: .symbol .equal :: value.spelling
  | .this line => [.placed (.keyword .thisWord) line]

/-- The spellings of expressions, one by one. -/
def Expr.listSpelling : List Expr → List (List Mark)
  | [] => []
  | e :: rest => e.spelling :: Expr.listSpelling rest

end

/-- The spelling of an expression that may be missing, behind some mark. -/
def Expr.optionSpelling (lead : List Mark) : Option Expr → List Mark
  | none => []
  | some e => lead ++ e.spelling

mutual

/-- The spelling of a statement or declaration. -/
def Stmt.spelling : Stmt → List Mark
  | .expression value => value.spelling ++ [.symbol .semicolon]
  | .print value => .word .printWord :: value.spelling ++ [.symbol .semicolon]
  | .declare name initial =>
    .word .letWord :: .name name :: Expr.optionSpelling [.symbol .equal] initial
      ++ [.symbol .semicolon]
  | .block body => .symbol .leftBrace :: Stmt.listSpelling body ++ [.symbol .rightBrace]
  | .branch condition thenBranch none =>
    .word .ifWord :: .symbol .leftParen :: condition.spelling ++ .symbol .rightParen
      :: thenBranch.spelling
  | .branch condition thenBranch (some elseBranch) =>
    .word .ifWord :: .symbol .leftParen :: condition.spelling ++ .symbol .rightParen
      :: thenBranch.spelling ++ .word .elseWord :: elseBranch.spelling
  | .loop condition body =>
    .word .whileWord :: .symbol .leftParen :: condition.spelling ++ .symbol .rightParen
      :: body.spelling
  | .leave line value =>
    .placed (.keyword .returnWord) line :: Expr.optionSpelling [] value ++ [.symbol .semicolon]
  | .function declaration => .word .fnWord :: declaration.spelling
  | .classOf ⟨name, methods⟩ =>
    .word .classWord :: .name name :: .symbol .leftBrace :: FunctionDecl.methodSpelling methods
      ++ [.gap, .symbol .rightBrace]

/-- The spelling of statements in order. -/
def Stmt.listSpelling : List Stmt → List Mark
  | [] => []
  | s :: rest => s.spelling ++ Stmt.listSpelling rest

/-- The spelling of a function behind its word. -/
def FunctionDecl.spelling : FunctionDecl → List Mark
  | ⟨name, params, body⟩ =>
    .name name :: .symbol .leftParen :: commaSeparated (params.map fun p => [.name p])
      ++ .symbol .rightParen :: .symbol .leftBrace :: Stmt.listSpelling body
      ++ [.symbol .rightBrace]

/-- The spelling of the methods of a class, each with a gap before it. -/
def FunctionDecl.methodSpelling : List FunctionDecl → List Mark
  | [] => []
  | method :: rest =>
    .gap :: .word .fnWord :: method.spelling ++ FunctionDecl.methodSpelling rest

end

/-- The spelling of a program. -/
def Program.spelling (program : Program) : List Mark :=
  Stmt.listSpelling program.declarations

/-- The arguments of a call are spelled one by one. -/
theorem Expr.listSpelling_eq_map (es : List Expr) :
    Expr.listSpelling es = es.map Expr.spelling := by
  induction es with
  | nil => rfl
  | cons e rest ih => rw [Expr.listSpelling, ih, List.map_cons]

/-! ## Splitting a spelling -/

@[simp] theorem spells_nil {tokens : List Token} : Spells [] tokens ↔ tokens = [] := by
  simp [Spells]

/-- A gap is spelled by any tokens that have no part in a class body. -/
theorem spells_gap {marks : List Mark} {tokens : List Token} :
    Spells (.gap :: marks) tokens ↔
      ∃ passed rest, tokens = passed ++ rest ∧ (∀ t ∈ passed, t.isFiller) ∧ Spells marks rest := by
  simp [Spells]

/-- A mark other than a gap is one token. -/
theorem spells_cons {mark : Mark} (h : mark ≠ .gap) {marks : List Mark} {tokens : List Token} :
    Spells (mark :: marks) tokens ↔
      ∃ t rest, tokens = t :: rest ∧ mark.Admits t ∧ Spells marks rest := by
  cases mark <;> simp [Spells] at h ⊢

/-- A mark other than a gap is spelled by the first token. -/
theorem Spells.exists_cons {mark : Mark} {marks : List Mark} {tokens : List Token}
    (h : Spells (mark :: marks) tokens) (hgap : mark ≠ .gap) :
    ∃ t rest, tokens = t :: rest ∧ mark.Admits t ∧ Spells marks rest :=
  (spells_cons hgap).1 h

/-- A single mark other than a gap is spelled by a single token. -/
theorem Spells.exists_singleton {mark : Mark} {tokens : List Token} (h : Spells [mark] tokens)
    (hgap : mark ≠ .gap) : ∃ t, tokens = [t] ∧ mark.Admits t := by
  obtain ⟨t, rest, rfl, ht, hrest⟩ := h.exists_cons hgap
  rw [spells_nil.1 hrest]
  exact ⟨t, rfl, ht⟩

/-- A spelling splits where its marks do. -/
theorem spells_append {first second : List Mark} {tokens : List Token} :
    Spells (first ++ second) tokens ↔
      ∃ ts us, tokens = ts ++ us ∧ Spells first ts ∧ Spells second us := by
  induction first generalizing tokens with
  | nil =>
    constructor
    · intro h
      exact ⟨[], tokens, rfl, spells_nil.2 rfl, h⟩
    · rintro ⟨ts, us, rfl, hts, hus⟩
      rw [spells_nil.1 hts]
      exact hus
  | cons mark marks ih =>
    by_cases hgap : mark = .gap
    · subst hgap
      rw [List.cons_append, spells_gap]
      constructor
      · rintro ⟨passed, rest, rfl, hpassed, hrest⟩
        obtain ⟨ts, us, rfl, hts, hus⟩ := ih.1 hrest
        exact ⟨passed ++ ts, us, by simp, spells_gap.2 ⟨passed, ts, rfl, hpassed, hts⟩, hus⟩
      · rintro ⟨ts, us, rfl, hts, hus⟩
        obtain ⟨passed, rest, rfl, hpassed, hrest⟩ := spells_gap.1 hts
        exact ⟨passed, rest ++ us, by simp, hpassed, ih.2 ⟨rest, us, rfl, hrest, hus⟩⟩
    · rw [List.cons_append, spells_cons hgap]
      constructor
      · rintro ⟨t, rest, rfl, ht, hrest⟩
        obtain ⟨ts, us, rfl, hts, hus⟩ := ih.1 hrest
        exact ⟨t :: ts, us, rfl, (spells_cons hgap).2 ⟨t, ts, rfl, ht, hts⟩, hus⟩
      · rintro ⟨ts, us, rfl, hts, hus⟩
        obtain ⟨t, rest, rfl, ht, hrest⟩ := (spells_cons hgap).1 hts
        exact ⟨t, rest ++ us, rfl, ht, ih.2 ⟨rest, us, rfl, hrest, hus⟩⟩

/-- Tokens that spell marks one after another spell them all. -/
theorem Spells.append {first second : List Mark} {ts us : List Token} (hts : Spells first ts)
    (hus : Spells second us) : Spells (first ++ second) (ts ++ us) :=
  spells_append.2 ⟨ts, us, rfl, hts, hus⟩

/-- A token that a mark admits may be put in front. -/
theorem Spells.cons {mark : Mark} {marks : List Mark} {t : Token} {ts : List Token}
    (h : mark.Admits t) (hts : Spells marks ts) : Spells (mark :: marks) (t :: ts) := by
  have hgap : mark ≠ .gap := by
    rintro rfl
    exact h
  exact (spells_cons hgap).2 ⟨t, ts, rfl, h, hts⟩

/-- A token that a mark admits spells that mark alone. -/
theorem Spells.singleton {mark : Mark} {t : Token} (h : mark.Admits t) : Spells [mark] [t] :=
  Spells.cons h (spells_nil.2 rfl)

/-- A gap may be empty. -/
theorem spells_gap_nil : Spells [.gap] [] :=
  spells_gap.2 ⟨[], [], rfl, nofun, spells_nil.2 rfl⟩

/-- One more token may stand in a gap. -/
theorem Spells.gap_cons {marks : List Mark} {t : Token} {ts : List Token} (ht : t.isFiller = true)
    (h : Spells (.gap :: marks) ts) : Spells (.gap :: marks) (t :: ts) := by
  obtain ⟨passed, rest, rfl, hpassed, hrest⟩ := spells_gap.1 h
  refine spells_gap.2 ⟨t :: passed, rest, rfl, ?_, hrest⟩
  intro u hu
  rcases List.mem_cons.1 hu with rfl | hu
  · exact ht
  · exact hpassed u hu

end Quill
