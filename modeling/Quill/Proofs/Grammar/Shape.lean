import Quill.Grammar.Rules
import Quill.Proofs.Grammar.Spelling

/-!
# The shape of trees

Not every tree is the tree of a source. `Program.wellFormed` says which shapes the grammar has, and
`Program.nesting` how deep a tree nests. Both are recursions on the tree and know nothing of tokens
or rules.

Expressions stand on tiers, from the loosest to the tightest: assignments (0), comparisons of values
(1), comparisons of sizes (2), sums (3), products (4), unary operators (5), and calls, properties
and whatever needs no operator (6). The tier of an operand decides where it may stand.
-/

namespace Quill

/-! ## Tiers -/

/-- The tier of a symbol between two operands. -/
def Symbol.tier? : Symbol → Option Nat
  | bangEqual => some 1
  | equalEqual => some 1
  | greater => some 2
  | greaterEqual => some 2
  | less => some 2
  | lessEqual => some 2
  | minus => some 3
  | plus => some 3
  | slash => some 4
  | star => some 4
  | _ => none

/-- The tier of an operator between two operands. -/
def Kind.tier? : Kind → Option Nat
  | symbol s => s.tier?
  | _ => none

/-- The tier of an expression. -/
def Expr.tier : Expr → Nat
  | .assign _ _ => 0
  | .set _ _ _ => 0
  | .binary _ operator _ => operator.kind.tier?.getD 0
  | .unary _ _ => 5
  | _ => 6

/-- No operator stands on the lowest tier, which is that of assignments. -/
theorem Kind.one_le_of_tier? {kind : Kind} {tier : Nat} (h : kind.tier? = some tier) :
    1 ≤ tier := by
  cases kind with
  | symbol s => cases s <;> cases h <;> decide
  | _ => cases h

/-- No operator between operands is tighter than those of the fourth tier. -/
theorem Kind.tier?_le {kind : Kind} {tier : Nat} (h : kind.tier? = some tier) : tier ≤ 4 := by
  cases kind with
  | symbol s => cases s <;> cases h <;> decide
  | _ => cases h

namespace Grammar

/-! The operators of each rule are those of one tier. -/

/-- The operators before an operand are `!` and `-`. -/
theorem isUnaryOperator_iff {kind : Kind} :
    isUnaryOperator kind = true ↔ kind = .symbol .bang ∨ kind = .symbol .minus := by
  cases kind with
  | symbol s => cases s <;> simp [isUnaryOperator]
  | _ => simp [isUnaryOperator]

/-- The operators of products are those of the fourth tier. -/
theorem isFactorOperator_iff {kind : Kind} :
    isFactorOperator kind = true ↔ kind.tier? = some 4 := by
  cases kind with
  | symbol s => cases s <;> decide
  | _ => simp [isFactorOperator, Kind.tier?]

/-- The operators of sums are those of the third tier. -/
theorem isTermOperator_iff {kind : Kind} : isTermOperator kind = true ↔ kind.tier? = some 3 := by
  cases kind with
  | symbol s => cases s <;> decide
  | _ => simp [isTermOperator, Kind.tier?]

/-- The operators that compare are those of the second tier. -/
theorem isComparisonOperator_iff {kind : Kind} :
    isComparisonOperator kind = true ↔ kind.tier? = some 2 := by
  cases kind with
  | symbol s => cases s <;> decide
  | _ => simp [isComparisonOperator, Kind.tier?]

/-- The operators of equality are those of the first tier. -/
theorem isEqualityOperator_iff {kind : Kind} :
    isEqualityOperator kind = true ↔ kind.tier? = some 1 := by
  cases kind with
  | symbol s => cases s <;> decide
  | _ => simp [isEqualityOperator, Kind.tier?]

end Grammar

/-- Nothing is tighter than a call. -/
theorem Expr.tier_le_six (e : Expr) : e.tier ≤ 6 := by
  cases e with
  | binary left operator right =>
    rw [Expr.tier]
    cases h : operator.kind.tier? with
    | none => decide
    | some tier => exact Nat.le_trans (Kind.tier?_le h) (by decide)
  | _ => simp [Expr.tier]

/-! ## Well-formed trees -/

mutual

/-- The expression has a shape of the grammar: a left operand is at least as tight as its operator
and a right operand is tighter, so operators group to the left; what is called or has a property is
on the tightest tier; a call has no more arguments than may be. -/
def Expr.wellFormed : Expr → Bool
  | .literal _ _ => true
  | .unary operator operand =>
    (operator.kind == .symbol .bang || operator.kind == .symbol .minus)
      && 5 ≤ operand.tier && operand.wellFormed
  | .binary left operator right =>
    match operator.kind.tier? with
    | some tier => tier ≤ left.tier && tier < right.tier && left.wellFormed && right.wellFormed
    | none => false
  | .group inner => inner.wellFormed
  | .reference _ => true
  | .assign _ value => value.wellFormed
  | .call callee arguments _ =>
    callee.tier == 6 && callee.wellFormed && arguments.length ≤ maxArity
      && Expr.listWellFormed arguments
  | .get object _ => object.tier == 6 && object.wellFormed
  | .set object _ value => object.tier == 6 && object.wellFormed && value.wellFormed
  | .this _ => true

/-- All of the expressions have a shape of the grammar. -/
def Expr.listWellFormed : List Expr → Bool
  | [] => true
  | e :: rest => e.wellFormed && Expr.listWellFormed rest

end

/-- Where the operands of an operator stand. -/
theorem Expr.wellFormed_binary {left right : Expr} {operator : Token}
    (h : (Expr.binary left operator right).wellFormed = true) :
    ∃ tier, operator.kind.tier? = some tier ∧ tier ≤ left.tier ∧ tier < right.tier
      ∧ left.wellFormed = true ∧ right.wellFormed = true := by
  rw [Expr.wellFormed] at h
  split at h
  · next tier htier =>
    simp only [Bool.and_eq_true, decide_eq_true_eq] at h
    exact ⟨tier, htier, h.1.1.1, h.1.1.2, h.1.2, h.2⟩
  · cases h

/-- Expressions have their shape if each of them does. -/
theorem Expr.listWellFormed_iff {es : List Expr} :
    Expr.listWellFormed es = true ↔ ∀ e ∈ es, e.wellFormed = true := by
  induction es with
  | nil => simp [Expr.listWellFormed]
  | cons e rest ih => simp [Expr.listWellFormed, ih]

/-- An expression that may be missing has a shape of the grammar. -/
def Expr.optionWellFormed : Option Expr → Bool
  | none => true
  | some e => e.wellFormed

/-- The statement declares a name in the scope around it. -/
def Stmt.isDeclaration : Stmt → Bool
  | .declare _ _ => true
  | .function _ => true
  | .classOf _ => true
  | _ => false

/-- The statement ends in a choice without `else`, so that an `else` behind it would belong to that
choice. -/
def Stmt.endsOpen : Stmt → Bool
  | .branch _ _ none => true
  | .branch _ _ (some elseBranch) => elseBranch.endsOpen
  | .loop _ body => body.endsOpen
  | _ => false

mutual

/-- The statement has a shape of the grammar: branches and the bodies of loops declare nothing, and
every `else` belongs to the nearest choice that is open. -/
def Stmt.wellFormed : Stmt → Bool
  | .expression value => value.wellFormed
  | .print value => value.wellFormed
  | .declare _ initial => Expr.optionWellFormed initial
  | .block body => Stmt.listWellFormed body
  | .branch condition thenBranch none =>
    condition.wellFormed && !thenBranch.isDeclaration && thenBranch.wellFormed
  | .branch condition thenBranch (some elseBranch) =>
    condition.wellFormed && !thenBranch.isDeclaration && thenBranch.wellFormed
      && !thenBranch.endsOpen && !elseBranch.isDeclaration && elseBranch.wellFormed
  | .loop condition body => condition.wellFormed && !body.isDeclaration && body.wellFormed
  | .leave _ value => Expr.optionWellFormed value
  | .function declaration => declaration.wellFormed
  | .classOf ⟨_, methods⟩ => FunctionDecl.listWellFormed methods

/-- All of the statements have a shape of the grammar. -/
def Stmt.listWellFormed : List Stmt → Bool
  | [] => true
  | s :: rest => s.wellFormed && Stmt.listWellFormed rest

/-- The function has no more parameters than may be, and its body a shape of the grammar. -/
def FunctionDecl.wellFormed : FunctionDecl → Bool
  | ⟨_, params, body⟩ => params.length ≤ maxArity && Stmt.listWellFormed body

/-- All of the functions have a shape of the grammar. -/
def FunctionDecl.listWellFormed : List FunctionDecl → Bool
  | [] => true
  | method :: rest => method.wellFormed && FunctionDecl.listWellFormed rest

end

/-- Statements have their shape if each of them does. -/
theorem Stmt.listWellFormed_iff {body : List Stmt} :
    Stmt.listWellFormed body = true ↔ ∀ s ∈ body, s.wellFormed = true := by
  induction body with
  | nil => simp [Stmt.listWellFormed]
  | cons s rest ih => simp [Stmt.listWellFormed, ih]

/-- Functions have their shape if each of them does. -/
theorem FunctionDecl.listWellFormed_iff {methods : List FunctionDecl} :
    FunctionDecl.listWellFormed methods = true ↔ ∀ f ∈ methods, f.wellFormed = true := by
  induction methods with
  | nil => simp [FunctionDecl.listWellFormed]
  | cons f rest ih => simp [FunctionDecl.listWellFormed, ih]

/-- The program has a shape of the grammar. -/
def Program.wellFormed (program : Program) : Bool :=
  Stmt.listWellFormed program.declarations

/-! ## Nesting -/

mutual

/-- How deep an expression nests below its own position: operands of unary operators, parentheses,
arguments and the right sides of assignments each go one deeper. -/
def Expr.nesting : Expr → Nat
  | .literal _ _ => 0
  | .unary _ operand => operand.nesting + 1
  | .binary left _ right => max left.nesting right.nesting
  | .group inner => inner.nesting + 1
  | .reference _ => 0
  | .assign _ value => value.nesting + 1
  | .call callee arguments _ => max callee.nesting (Expr.listNesting arguments)
  | .get object _ => object.nesting
  | .set object _ value => max object.nesting (value.nesting + 1)
  | .this _ => 0

/-- How deep expressions nest, each in a position of its own. -/
def Expr.listNesting : List Expr → Nat
  | [] => 0
  | e :: rest => max (e.nesting + 1) (Expr.listNesting rest)

end

/-- How deep an expression that may be missing nests, in a position of its own. -/
def Expr.optionNesting : Option Expr → Nat
  | none => 0
  | some e => e.nesting + 1

mutual

/-- How deep a statement nests. Statements and functions each go one deeper, and so does every
position of an expression; declaring a variable or a class does not. -/
def Stmt.nesting : Stmt → Nat
  | .expression value => value.nesting + 1 + 1
  | .print value => value.nesting + 1 + 1
  | .declare _ initial => Expr.optionNesting initial
  | .block body => Stmt.listNesting body + 1
  | .branch condition thenBranch none =>
    max (condition.nesting + 1) thenBranch.nesting + 1
  | .branch condition thenBranch (some elseBranch) =>
    max (condition.nesting + 1) (max thenBranch.nesting elseBranch.nesting) + 1
  | .loop condition body => max (condition.nesting + 1) body.nesting + 1
  | .leave _ value => Expr.optionNesting value + 1
  | .function declaration => declaration.nesting
  | .classOf ⟨_, methods⟩ => FunctionDecl.listNesting methods

/-- How deep statements nest. -/
def Stmt.listNesting : List Stmt → Nat
  | [] => 0
  | s :: rest => max s.nesting (Stmt.listNesting rest)

/-- How deep a function nests. -/
def FunctionDecl.nesting : FunctionDecl → Nat
  | ⟨_, _, body⟩ => Stmt.listNesting body + 1

/-- How deep functions nest. -/
def FunctionDecl.listNesting : List FunctionDecl → Nat
  | [] => 0
  | method :: rest => max method.nesting (FunctionDecl.listNesting rest)

end

/-- How deep a program nests. -/
def Program.nesting (program : Program) : Nat :=
  Stmt.listNesting program.declarations

/-! ## First tokens -/

/-- The kinds of the tokens that expressions start with. -/
def Kind.startsExpression : Kind → Bool
  | symbol .leftParen => true
  | symbol .bang => true
  | symbol .minus => true
  | keyword .falseWord => true
  | keyword .trueWord => true
  | keyword .nilWord => true
  | keyword .thisWord => true
  | identifier => true
  | string _ => true
  | number _ => true
  | _ => false

/-- The token of a literal starts an expression. -/
theorem Literal.startsExpression_kind (value : Literal) : value.kind.startsExpression = true := by
  cases value with
  | boolean b => cases b <;> rfl
  | _ => rfl

/-- The token of a literal is no operator. -/
theorem Literal.isUnaryOperator_kind (value : Literal) :
    Grammar.isUnaryOperator value.kind = false := by
  cases value with
  | boolean b => cases b <;> rfl
  | _ => rfl

/-- The first token of an expression is that of its leftmost operand. On the tightest tier this is
no operator. -/
theorem exists_cons_of_spells_expr : (e : Expr) → ∀ {ts : List Token}, e.wellFormed = true →
    Spells e.spelling ts → ∃ t rest, ts = t :: rest ∧ t.kind.startsExpression = true
      ∧ (e.tier = 6 → Grammar.isUnaryOperator t.kind = false)
  | .literal value line, ts, _, h => by
    obtain ⟨t, rest, rfl, ⟨hkind, -⟩, -⟩ := h.exists_cons nofun
    exact ⟨t, rest, rfl, hkind ▸ value.startsExpression_kind,
      fun _ => hkind ▸ value.isUnaryOperator_kind⟩
  | .unary operator operand, ts, hwf, h => by
    obtain ⟨t, rest, rfl, rfl, -⟩ := h.exists_cons nofun
    refine ⟨t, rest, rfl, ?_, nofun⟩
    simp only [Expr.wellFormed, Bool.and_eq_true, Bool.or_eq_true, beq_iff_eq] at hwf
    rcases hwf.1.1 with hkind | hkind
    · rw [hkind]; rfl
    · rw [hkind]; rfl
  | .binary left operator right, ts, hwf, h => by
    obtain ⟨us, vs, rfl, hus, -⟩ := spells_append.1 h
    obtain ⟨tier, htier, -, -, hleft, -⟩ := Expr.wellFormed_binary hwf
    obtain ⟨t, rest, rfl, ht, -⟩ := exists_cons_of_spells_expr left hleft hus
    refine ⟨t, rest ++ vs, rfl, ht, fun hsix => ?_⟩
    have hle := Kind.tier?_le htier
    rw [Expr.tier, htier, Option.getD_some] at hsix
    omega
  | .group inner, ts, _, h => by
    obtain ⟨t, rest, rfl, ht, -⟩ := h.exists_cons nofun
    exact ⟨t, rest, rfl, by rw [ht]; rfl, fun _ => by rw [ht]; rfl⟩
  | .reference name, ts, _, h => by
    obtain ⟨t, rest, rfl, ⟨ht, -⟩, -⟩ := h.exists_cons nofun
    exact ⟨t, rest, rfl, by rw [ht]; rfl, fun _ => by rw [ht]; rfl⟩
  | .assign name value, ts, _, h => by
    obtain ⟨t, rest, rfl, ⟨ht, -⟩, -⟩ := h.exists_cons nofun
    exact ⟨t, rest, rfl, by rw [ht]; rfl, nofun⟩
  | .call callee arguments line, ts, hwf, h => by
    rw [Expr.spelling, List.append_assoc] at h
    obtain ⟨us, vs, rfl, hus, -⟩ := spells_append.1 h
    simp only [Expr.wellFormed, Bool.and_eq_true, beq_iff_eq] at hwf
    obtain ⟨t, rest, rfl, ht, hop⟩ := exists_cons_of_spells_expr callee hwf.1.1.2 hus
    exact ⟨t, rest ++ vs, rfl, ht, fun _ => hop hwf.1.1.1⟩
  | .get object property, ts, hwf, h => by
    obtain ⟨us, vs, rfl, hus, -⟩ := spells_append.1 h
    simp only [Expr.wellFormed, Bool.and_eq_true, beq_iff_eq] at hwf
    obtain ⟨t, rest, rfl, ht, hop⟩ := exists_cons_of_spells_expr object hwf.2 hus
    exact ⟨t, rest ++ vs, rfl, ht, fun _ => hop hwf.1⟩
  | .set object property value, ts, hwf, h => by
    obtain ⟨us, vs, rfl, hus, -⟩ := spells_append.1 h
    simp only [Expr.wellFormed, Bool.and_eq_true] at hwf
    obtain ⟨t, rest, rfl, ht, -⟩ := exists_cons_of_spells_expr object hwf.1.2 hus
    exact ⟨t, rest ++ vs, rfl, ht, nofun⟩
  | .this line, ts, _, h => by
    obtain ⟨t, rest, rfl, ⟨ht, -⟩, -⟩ := h.exists_cons nofun
    exact ⟨t, rest, rfl, by rw [ht]; rfl, fun _ => by rw [ht]; rfl⟩

/-- The kinds of the tokens that statements start with. -/
def Kind.startsStatement : Kind → Bool
  | keyword .ifWord => true
  | keyword .whileWord => true
  | keyword .returnWord => true
  | keyword .printWord => true
  | symbol .leftBrace => true
  | kind => kind.startsExpression

/-- The kinds of the tokens that statements and declarations start with. -/
def Kind.startsDeclaration : Kind → Bool
  | keyword .classWord => true
  | keyword .fnWord => true
  | keyword .letWord => true
  | kind => kind.startsStatement

/-- What starts an expression starts a statement. -/
theorem Kind.startsStatement_of_startsExpression {kind : Kind}
    (h : kind.startsExpression = true) : kind.startsStatement = true := by
  unfold startsStatement
  split
  all_goals first
    | rfl
    | exact h

/-- What starts a statement starts a declaration. -/
theorem Kind.startsDeclaration_of_startsStatement {kind : Kind}
    (h : kind.startsStatement = true) : kind.startsDeclaration = true := by
  unfold startsDeclaration
  split
  all_goals first
    | rfl
    | exact h

/-- A statement that declares nothing starts as statements do. -/
theorem exists_cons_of_spells_stmt {s : Stmt} {ts : List Token} (hwf : s.wellFormed = true)
    (hs : s.isDeclaration = false) (h : Spells s.spelling ts) :
    ∃ t rest, ts = t :: rest ∧ t.kind.startsStatement = true := by
  cases s with
  | expression value =>
    obtain ⟨us, vs, rfl, hus, -⟩ := spells_append.1 h
    obtain ⟨t, rest, rfl, ht, -⟩ := exists_cons_of_spells_expr value hwf hus
    exact ⟨t, rest ++ vs, rfl, Kind.startsStatement_of_startsExpression ht⟩
  | branch condition thenBranch elseBranch =>
    cases elseBranch with
    | none =>
      obtain ⟨t, rest, rfl, ht, -⟩ := h.exists_cons nofun
      exact ⟨t, rest, rfl, by rw [ht]; rfl⟩
    | some elseBranch =>
      obtain ⟨t, rest, rfl, ht, -⟩ := h.exists_cons nofun
      exact ⟨t, rest, rfl, by rw [ht]; rfl⟩
  | leave line value =>
    obtain ⟨t, rest, rfl, ⟨ht, -⟩, -⟩ := h.exists_cons nofun
    exact ⟨t, rest, rfl, by rw [ht]; rfl⟩
  | declare name initial => cases hs
  | function declaration => cases hs
  | classOf declaration => cases hs
  | _ =>
    obtain ⟨t, rest, rfl, ht, -⟩ := h.exists_cons nofun
    exact ⟨t, rest, rfl, by rw [ht]; rfl⟩

/-- No statement or declaration is spelled without a token. -/
theorem exists_cons_of_spells_declaration {s : Stmt} {ts : List Token} (hwf : s.wellFormed = true)
    (h : Spells s.spelling ts) : ∃ t rest, ts = t :: rest ∧ t.kind.startsDeclaration = true := by
  cases hs : s.isDeclaration with
  | false =>
    obtain ⟨t, rest, hts, ht⟩ := exists_cons_of_spells_stmt hwf hs h
    exact ⟨t, rest, hts, Kind.startsDeclaration_of_startsStatement ht⟩
  | true =>
    cases s with
    | declare name initial =>
      obtain ⟨t, rest, rfl, ht, -⟩ := h.exists_cons nofun
      exact ⟨t, rest, rfl, by rw [ht]; rfl⟩
    | function declaration =>
      obtain ⟨t, rest, rfl, ht, -⟩ := h.exists_cons nofun
      exact ⟨t, rest, rfl, by rw [ht]; rfl⟩
    | classOf declaration =>
      obtain ⟨name, methods⟩ := declaration
      obtain ⟨t, rest, rfl, ht, -⟩ := h.exists_cons nofun
      exact ⟨t, rest, rfl, by rw [ht]; rfl⟩
    | _ => cases hs

end Quill
