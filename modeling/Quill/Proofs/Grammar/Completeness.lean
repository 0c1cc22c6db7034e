import Quill.Proofs.Grammar.Ladder
import Quill.Proofs.Grammar.Levels

/-!
# What spells a well-formed program is read as that program

The converse of soundness, with the limit of nesting made exact. Tokens that spell a well-formed
tree are read as this tree if it nests no deeper than the levels that are left; if it nests deeper,
that is what is found wrong first, and what is found after it does not matter.

* `StatementAt`, `DeclarationAt`, `FunctionAt`: the rules read a statement, declaration or function
  wherever it may stand. A statement that ends in a choice without `else` may not stand before an
  `else`.
* one lemma for each kind of statement, and the recursion on the tree from these.
* `Program.Answers` and `parse_complete`: whole programs.
-/

namespace Quill

namespace Grammar

open Parse

/-! ## What is asked of statements and functions -/

/-- No `else` is next. -/
def NoElse (us : List Token) : Prop :=
  ∀ t ∈ us.head?, t.kind ≠ .keyword .elseWord

/-- The rule for statements reads the statement, unless an `else` behind it would belong to it. -/
def StatementAt (s : Stmt) : Prop :=
  ∀ (levels rounds : Nat) (ts us : List Token), Spells s.spelling ts →
    (ts ++ us).length < rounds → (s.endsOpen = true → NoElse us) →
      Leads (s.nesting ≤ levels) (Rules.atLevels rounds levels).statement (ts ++ us) us (pure s)

/-- The rule for declarations reads the statement or declaration. -/
def DeclarationAt (s : Stmt) : Prop :=
  ∀ (levels rounds : Nat) (ts us : List Token), Spells s.spelling ts →
    (ts ++ us).length < rounds → (s.endsOpen = true → NoElse us) →
      Leads (s.nesting ≤ levels) (declarationRule (Rules.atLevels rounds levels)) (ts ++ us) us
        (pure s)

/-- The rule for functions reads the function. -/
def FunctionAt (f : FunctionDecl) : Prop :=
  ∀ (levels rounds : Nat) (ts us : List Token), Spells f.spelling ts →
    (ts ++ us).length < rounds →
      Leads (f.nesting ≤ levels) (Rules.atLevels rounds levels).function (ts ++ us) us (pure f)

/-- A statement is one level further out than what it is made of. -/
theorem StatementAt.of_inner {s : Stmt} {depth : Nat} (hdepth : s.nesting = depth + 1)
    (h : ∀ (levels rounds : Nat) (ts us : List Token), Spells s.spelling ts →
      (ts ++ us).length < rounds → (s.endsOpen = true → NoElse us) →
      Leads (depth ≤ levels) (statement (Rules.atLevels rounds levels)) (ts ++ us) us (pure s)) :
    StatementAt s := by
  intro levels rounds ts us hspells hlen helse
  rw [hdepth]
  cases levels with
  | zero => exact leads_tooDeep (Nat.not_succ_le_zero _)
  | succ levels =>
    exact (h levels rounds ts us hspells hlen helse).congr Nat.succ_le_succ_iff.symm

/-- A statement that declares nothing is left to the rule for statements. -/
theorem StatementAt.declarationAt {s : Stmt} (hwf : s.wellFormed = true)
    (hs : s.isDeclaration = false) (h : StatementAt s) : DeclarationAt s := by
  intro levels rounds ts us hspells hlen helse
  obtain ⟨t, rest, rfl, hstart⟩ := exists_cons_of_spells_stmt hwf hs hspells
  have hnext : ∀ {word : Keyword}, (Kind.keyword word).startsStatement = false →
      ∀ u ∈ (t :: rest ++ us).head?, u.kind ≠ .keyword word := by
    rintro word hword u hu hkind
    cases hu
    rw [hkind, hword] at hstart
    cases hstart
  exact (passes_accept_false (hnext rfl)).leads ((passes_accept_false (hnext rfl)).leads
    ((passes_accept_false (hnext rfl)).leads (h levels rounds _ us hspells hlen helse)))

/-- A symbol that continues no expression may stand behind any of them. -/
theorem follows_symbol {s : Symbol} (h : continues 0 (.symbol s) = false) {t : Token}
    (ht : t.kind = .symbol s) {us : List Token} : Follows 0 (t :: us) :=
  follows_cons.2 (by rw [ht, h])

/-! ## Statements made of expressions -/

/-- No word or brace that the rule for statements looks for starts an expression. -/
theorem statement_of_startsExpression {inner : Rules} {t : Token}
    (h : t.kind.startsExpression = true) (ts : List Token) (line : Nat)
    (problems : Array Problem) :
    statement inner (Cursor.before (t :: ts) line problems) = (do
      let value ← inner.expression
      let _ ← expect (.symbol .semicolon) .expressionEnd
      return Stmt.expression value) (Cursor.before (t :: ts) line problems) := by
  obtain ⟨kind, lexeme, at_⟩ := t
  cases kind with
  | symbol s =>
    cases s with
    | leftBrace => cases h
    | _ => rfl
  | keyword k =>
    cases k with
    | ifWord => cases h
    | whileWord => cases h
    | returnWord => cases h
    | printWord => cases h
    | _ => rfl
  | _ => rfl

/-- A well-formed expression followed by its semicolon is read as the statement. -/
theorem statementAt_expression {value : Expr} (hwf : value.wellFormed = true) :
    StatementAt (.expression value) := by
  refine .of_inner rfl fun levels rounds ts us hspells hlen _ => ?_
  obtain ⟨ts, vs, rfl, hts, hvs⟩ := spells_append.1 hspells
  obtain ⟨close, rfl, hclose⟩ := hvs.exists_singleton (by simp)
  rw [List.append_assoc, List.singleton_append] at hlen ⊢
  have hvalue : Leads (value.nesting + 1 ≤ levels) (Rules.atLevels rounds levels).expression
      (ts ++ close :: us) (close :: us) (pure value) :=
    leads_expression hwf hts hlen (follows_symbol rfl hclose)
  have hrule : Leads (value.nesting + 1 ≤ levels) (do
        let value ← (Rules.atLevels rounds levels).expression
        let _ ← expect (.symbol .semicolon) .expressionEnd
        return Stmt.expression value) (ts ++ close :: us) us (pure (.expression value)) :=
    hvalue.bind.passes ((passes_expect hclose).bind passes_pure)
  obtain ⟨t, rest, rfl, hstart, -⟩ := exists_cons_of_spells_expr value hwf hts
  exact hrule.of_eq fun line problems => statement_of_startsExpression hstart _ line problems

/-- A well-formed value behind `print` is read as the statement. -/
theorem statementAt_print {value : Expr} (hwf : value.wellFormed = true) :
    StatementAt (.print value) := by
  refine .of_inner rfl fun levels rounds ts us hspells hlen _ => ?_
  obtain ⟨word, ts, rfl, hword, hbehind⟩ := hspells.exists_cons (by simp)
  obtain ⟨ts, vs, rfl, hts, hvs⟩ := spells_append.1 hbehind
  obtain ⟨close, rfl, hclose⟩ := hvs.exists_singleton (by simp)
  simp only [List.append_assoc, List.cons_append, List.nil_append, List.length_cons] at hlen ⊢
  have hvalue : Leads (value.nesting + 1 ≤ levels) (Rules.atLevels rounds levels).expression
      (ts ++ close :: us) (close :: us) (pure value) :=
    leads_expression hwf hts (by omega) (follows_symbol rfl hclose)
  have hrule : Leads (value.nesting + 1 ≤ levels) (do
        advance
        let value ← (Rules.atLevels rounds levels).expression
        let _ ← expect (.symbol .semicolon) .printEnd
        return Stmt.print value) (word :: (ts ++ close :: us)) us (pure (.print value)) :=
    passes_advance.leads (hvalue.bind.passes ((passes_expect hclose).bind passes_pure))
  obtain ⟨kind, lexeme, line⟩ := word
  cases hword
  exact hrule.of_eq fun _ _ => rfl

/-- A `return` is read with the value that it has, or without one. -/
theorem statementAt_leave {line : Nat} {value : Option Expr}
    (hwf : Expr.optionWellFormed value = true) : StatementAt (.leave line value) := by
  refine .of_inner rfl fun levels rounds ts us hspells hlen _ => ?_
  obtain ⟨word, ts, rfl, ⟨hword, rfl⟩, hbehind⟩ := hspells.exists_cons (by simp)
  obtain ⟨ts, vs, rfl, hts, hvs⟩ := spells_append.1 hbehind
  obtain ⟨close, rfl, hclose⟩ := hvs.exists_singleton (by simp)
  simp only [List.append_assoc, List.cons_append, List.nil_append, List.length_cons] at hlen ⊢
  have hleave : Leads (Expr.optionNesting value ≤ levels)
      (leave (Rules.atLevels rounds levels) word.line) (ts ++ close :: us) us
      (pure (.leave word.line value)) := by
    refine (passes_sees _).leads ?_
    cases value with
    | none =>
      rw [spells_nil.1 hts]
      have hnext :
          ((([] ++ close :: us).head?.map Token.kind) == some (.symbol .semicolon)) = true :=
        beq_iff_eq.2 (congrArg some hclose)
      rw [hnext]
      have hrule : Passes (do
          let _ ← expect (.symbol .semicolon) .returnEnd
          return Stmt.leave word.line none) (close :: us) us (.leave word.line none) :=
        (passes_expect hclose).bind passes_pure
      exact hrule.leads_pure.congr (by simp [Expr.optionNesting])
    | some e =>
      have hvalue : Leads (e.nesting + 1 ≤ levels) (Rules.atLevels rounds levels).expression
          (ts ++ close :: us) (close :: us) (pure e) :=
        leads_expression hwf hts (by omega) (follows_symbol rfl hclose)
      obtain ⟨t, rest, rfl, hstart, -⟩ := exists_cons_of_spells_expr e hwf hts
      have hnext : ((((t :: rest) ++ close :: us).head?.map Token.kind)
          == some (.symbol .semicolon)) = false := by
        refine beq_eq_false_iff_ne.2 fun hkind => ?_
        rw [Option.some.inj hkind] at hstart
        cases hstart
      rw [hnext]
      exact hvalue.bind.passes ((passes_expect hclose).bind passes_pure)
  have hrule : Leads (Expr.optionNesting value ≤ levels) (do
        advance
        leave (Rules.atLevels rounds levels) word.line) (word :: (ts ++ close :: us)) us
      (pure (.leave word.line value)) := passes_advance.leads hleave
  obtain ⟨kind, lexeme, line⟩ := word
  cases hword
  exact hrule.of_eq fun _ _ => rfl

/-! ## Blocks and functions -/

/-- No token that starts a declaration is an `else`. -/
theorem noElse_of_startsDeclaration {t : Token} (h : t.kind.startsDeclaration = true)
    {us : List Token} : NoElse (t :: us) := by
  rintro u hu hkind
  cases hu
  rw [hkind] at h
  cases h

/-- Declarations one after another, up to where the test stops them. -/
theorem leads_declarationsAtFuel {levels rounds : Nat} {stop : Parse Bool} [Grows stop]
    {us : List Token} (hstops : Passes stop us us true)
    (hgoes : ∀ t ts, t.kind.startsDeclaration = true → Passes stop (t :: ts) (t :: ts) false)
    (helse : NoElse us) :
    ∀ (body : List Stmt), (∀ s ∈ body, s.wellFormed = true ∧ DeclarationAt s) →
      ∀ (fuel : Nat) (ts : List Token), Spells (Stmt.listSpelling body) ts →
        (ts ++ us).length < rounds → (ts ++ us).length < fuel →
        Leads (Stmt.listNesting body ≤ levels)
          (declarationsAtFuel (Rules.atLevels rounds levels) stop fuel) (ts ++ us) us (pure body)
  | _, _, 0, _, _, _, hfuel => absurd hfuel (Nat.not_lt_zero _)
  | [], _, fuel + 1, ts, hspells, _, _ => by
    rw [spells_nil.1 hspells]
    have hrule :
        Passes (declarationsAtFuel (Rules.atLevels rounds levels) stop (fuel + 1)) us us [] :=
      hstops.bind passes_pure
    exact hrule.leads_pure.congr (by simp [Stmt.listNesting])
  | s :: body, hbody, fuel + 1, ts, hspells, hrounds, hfuel => by
    obtain ⟨hwf, hs⟩ := hbody s List.mem_cons_self
    obtain ⟨ts, vs, rfl, hts, hvs⟩ := spells_append.1 hspells
    obtain ⟨t, more, rfl, hstart⟩ := exists_cons_of_spells_declaration hwf hts
    rw [List.append_assoc] at hrounds hfuel ⊢
    have hbehind : NoElse (vs ++ us) := by
      cases body with
      | nil =>
        rw [spells_nil.1 hvs]
        exact helse
      | cons s' body =>
        obtain ⟨ws, xs, rfl, hws, -⟩ := spells_append.1 hvs
        obtain ⟨u, rest, rfl, hu⟩ :=
          exists_cons_of_spells_declaration (hbody s' (by simp)).1 hws
        exact noElse_of_startsDeclaration hu
    have hfirst : Leads (s.nesting ≤ levels) (declaration (Rules.atLevels rounds levels))
        (t :: more ++ (vs ++ us)) (vs ++ us) (pure (some s)) :=
      leads_recovering (hs levels rounds _ _ hts hrounds fun _ => hbehind)
    simp only [List.cons_append, List.length_cons, List.length_append] at hrounds hfuel
    have hrest : Leads (Stmt.listNesting body ≤ levels)
        (declarationsAtFuel (Rules.atLevels rounds levels) stop fuel) (vs ++ us) us (pure body) :=
      leads_declarationsAtFuel hstops hgoes helse body
        (fun s' hs' => hbody s' (List.mem_cons_of_mem _ hs')) fuel vs hvs
        (by rw [List.length_append]; omega) (by rw [List.length_append]; omega)
    have hround : Leads (s.nesting ≤ levels ∧ Stmt.listNesting body ≤ levels) (do
          let first ← declaration (Rules.atLevels rounds levels)
          let rest ← declarationsAtFuel (Rules.atLevels rounds levels) stop fuel
          return first.toList ++ rest) (t :: more ++ (vs ++ us)) us (pure (s :: body)) :=
      hfirst.bind.trans (hrest.bind.passes passes_pure)
    refine ((hgoes t _ hstart).leads hround).congr ?_
    rw [Stmt.listNesting, Nat.max_le]

/-- The statements of a block are read one by one, up to the closing brace. -/
theorem leads_block {levels rounds : Nat} {body : List Stmt}
    (hbody : ∀ s ∈ body, s.wellFormed = true ∧ DeclarationAt s) {close : Token}
    (hclose : close.kind = .symbol .rightBrace) {ts us : List Token}
    (hspells : Spells (Stmt.listSpelling body) ts) (hlen : (ts ++ close :: us).length < rounds) :
    Leads (Stmt.listNesting body ≤ levels) (block (Rules.atLevels rounds levels))
      (ts ++ close :: us) us (pure body) := by
  have hstops : Passes blockEnds (close :: us) (close :: us) true := by
    intro line problems
    show EStateM.Result.ok ((some close.kind == some (.symbol .rightBrace)) || _) _ = _
    rw [hclose]
    rfl
  have hgoes : ∀ (t : Token) (ts : List Token), t.kind.startsDeclaration = true →
      Passes blockEnds (t :: ts) (t :: ts) false := by
    intro t ts hstart line problems
    show EStateM.Result.ok ((some t.kind == some (.symbol .rightBrace)) || false) _ = _
    have hkind : (some t.kind == some (Kind.symbol .rightBrace)) = false := by
      refine beq_eq_false_iff_ne.2 fun hkind => ?_
      rw [Option.some.inj hkind] at hstart
      cases hstart
    rw [hkind]
    rfl
  have helse : NoElse (close :: us) := by
    rintro t ht hkind
    cases ht
    rw [hkind] at hclose
    cases hclose
  have hdecls : Leads (Stmt.listNesting body ≤ levels)
      (declarationsAtFuel (Rules.atLevels rounds levels) blockEnds rounds) (ts ++ close :: us)
      (close :: us) (pure body) :=
    leads_declarationsAtFuel hstops hgoes helse body hbody rounds ts hspells hlen hlen
  unfold block
  rw [Rules.rounds_atLevels]
  exact hdecls.bind.passes ((passes_expect hclose).bind passes_pure)

/-- A parameter is an item of its list. -/
theorem itemAt_param {rounds : Nat} (name : Name) :
    ItemAt (expectName .parameterName) True rounds [.name name] name where
  leads ts us hspells _ _ := by
    obtain ⟨t, rfl, ht⟩ := hspells.exists_singleton (by simp)
    exact (passes_expectName ht).leads_pure
  starts ts hspells := by
    obtain ⟨t, rfl, ht, -⟩ := hspells.exists_singleton (by simp)
    exact ⟨t, [], rfl, by rw [ht]; nofun⟩

/-- A function is read if every declaration in its body is. -/
theorem functionAt_of_body {name : Name} {params : List Name} {body : List Stmt}
    (harity : params.length ≤ maxArity)
    (hbody : ∀ s ∈ body, s.wellFormed = true ∧ DeclarationAt s) :
    FunctionAt ⟨name, params, body⟩ := by
  intro levels rounds ts us hspells hlen
  cases levels with
  | zero => exact leads_tooDeep (Nat.not_succ_le_zero _)
  | succ levels =>
    have hmarks : FunctionDecl.spelling ⟨name, params, body⟩ = .name name :: .symbol .leftParen
        :: (commaSeparated (params.map fun p => [.name p]) ++ .symbol .rightParen
          :: .symbol .leftBrace :: (Stmt.listSpelling body ++ [.symbol .rightBrace])) := by
      simp [FunctionDecl.spelling]
    rw [hmarks] at hspells
    obtain ⟨t, ts, rfl, ht, h₁⟩ := hspells.exists_cons (by simp)
    obtain ⟨paren, ts, rfl, hparen, h₂⟩ := h₁.exists_cons (by simp)
    obtain ⟨ts, vs, rfl, hparams, h₃⟩ := spells_append.1 h₂
    obtain ⟨close, vs, rfl, hclose, h₄⟩ := h₃.exists_cons (by simp)
    obtain ⟨brace, vs, rfl, hbrace, h₅⟩ := h₄.exists_cons (by simp)
    obtain ⟨vs, ws, rfl, hvs, h₆⟩ := spells_append.1 h₅
    obtain ⟨ends, rfl, hends⟩ := h₆.exists_singleton (by simp)
    simp only [List.append_assoc, List.cons_append, List.nil_append, List.length_cons,
      List.length_append] at hlen ⊢
    have hseparated : Leads (∀ p ∈ params, True)
        (separated rounds (expectName .parameterName) .tooManyParameters)
        (ts ++ close :: brace :: (vs ++ ends :: us)) (close :: brace :: (vs ++ ends :: us))
        (pure params) :=
      leads_separated hclose (fun p _ => itemAt_param p) hparams
        (by simp only [List.length_append, List.length_cons]; omega) harity
    have hblock : Leads (Stmt.listNesting body ≤ levels) (block (Rules.atLevels rounds levels))
        (vs ++ ends :: us) us (pure body) :=
      leads_block hbody hends hvs (by simp only [List.length_append, List.length_cons]; omega)
    have hrule : Leads ((∀ p ∈ params, True) ∧ Stmt.listNesting body ≤ levels)
        (function (Rules.atLevels rounds levels))
        (t :: paren :: (ts ++ close :: brace :: (vs ++ ends :: us))) us
        (pure ⟨name, params, body⟩) := by
      refine (passes_expectName ht).leads ((passes_expect hparen).leads ?_)
      rw [Rules.rounds_atLevels]
      exact hseparated.bind.trans ((passes_expect hclose).leads ((passes_expect hbrace).leads
        (hblock.bind.passes passes_pure)))
    exact hrule.congr (by simp [FunctionDecl.nesting])

/-! ## Classes -/

/-- Tokens that neither start a method nor end the class are passed over. -/
theorem leads_methodsAtFuel_filler {function : Parse FunctionDecl} {p : Prop}
    {next : Parse (List FunctionDecl)} {us vs : List Token} :
    ∀ (passed : List Token), (∀ t ∈ passed, t.isFiller = true) →
      (∀ fuel, us.length < fuel → Leads p (methodsAtFuel function fuel) us vs next) →
      ∀ fuel, (passed ++ us).length < fuel →
        Leads p (methodsAtFuel function fuel) (passed ++ us) vs next
  | _, _, _, 0, hfuel => absurd hfuel (Nat.not_lt_zero _)
  | [], _, h, fuel + 1, hfuel => h (fuel + 1) hfuel
  | t :: passed, hfiller, h, fuel + 1, hfuel => by
    have ht := hfiller t List.mem_cons_self
    simp only [Token.isFiller, Bool.and_eq_true, bne_iff_ne, ne_eq] at ht
    have hbrace : (((t :: (passed ++ us)).head?.map Token.kind)
        == some (.symbol .rightBrace)) = false :=
      beq_eq_false_iff_ne.2 fun hkind => ht.2 (Option.some.inj hkind)
    have hfn : ∀ u ∈ (t :: (passed ++ us)).head?, u.kind ≠ .keyword .fnWord := by
      intro u hu
      cases hu
      exact ht.1
    have hrest := leads_methodsAtFuel_filler passed
      (fun u hu => hfiller u (List.mem_cons_of_mem _ hu)) h fuel (Nat.lt_of_succ_lt_succ hfuel)
    unfold methodsAtFuel
    refine (passes_sees _).leads (passes_atEnd.leads ?_)
    rw [List.cons_append, hbrace]
    exact (passes_accept_false hfn).leads (passes_advance.leads hrest)

/-- The methods of a class up to its closing brace. -/
theorem leads_methodsAtFuel {levels rounds : Nat} {close : Token}
    (hclose : close.kind = .symbol .rightBrace) {us : List Token} :
    ∀ (methods : List FunctionDecl), (∀ f ∈ methods, FunctionAt f) →
      ∀ (fuel : Nat) (ts : List Token),
        Spells (FunctionDecl.methodSpelling methods ++ [.gap]) ts →
        (ts ++ close :: us).length < rounds → (ts ++ close :: us).length < fuel →
        Leads (FunctionDecl.listNesting methods ≤ levels)
          (methodsAtFuel (Rules.atLevels rounds levels).function fuel) (ts ++ close :: us)
          (close :: us) (pure methods)
  | [], _, fuel, ts, hspells, _, hfuel => by
    obtain ⟨passed, rest, rfl, hfiller, hrest⟩ := spells_gap.1 hspells
    rw [spells_nil.1 hrest, List.append_nil] at hfuel ⊢
    refine leads_methodsAtFuel_filler passed hfiller (fun fuel hpos => ?_) fuel hfuel
    obtain ⟨fuel, rfl⟩ : ∃ n, fuel = n + 1 := ⟨fuel - 1, by omega⟩
    have hbrace : (((close :: us).head?.map Token.kind) == some (.symbol .rightBrace)) = true :=
      beq_iff_eq.2 (congrArg some hclose)
    unfold methodsAtFuel
    refine (passes_sees _).leads (passes_atEnd.leads ?_)
    rw [hbrace]
    exact passes_pure.leads_pure.congr (by simp [FunctionDecl.listNesting])
  | method :: methods, hmethods, fuel, ts, hspells, hrounds, hfuel => by
    have hmarks : FunctionDecl.methodSpelling (method :: methods) ++ [.gap] = .gap
        :: .word .fnWord :: (method.spelling
          ++ (FunctionDecl.methodSpelling methods ++ [.gap])) := by
      simp [FunctionDecl.methodSpelling]
    rw [hmarks] at hspells
    obtain ⟨passed, rest, rfl, hfiller, hrest⟩ := spells_gap.1 hspells
    obtain ⟨word, ts, rfl, hword, hbehind⟩ := hrest.exists_cons (by simp)
    obtain ⟨ts, vs, rfl, hts, hvs⟩ := spells_append.1 hbehind
    simp only [List.append_assoc, List.cons_append] at hrounds hfuel ⊢
    refine leads_methodsAtFuel_filler passed hfiller (fun fuel hpos => ?_) fuel hfuel
    obtain ⟨fuel, rfl⟩ : ∃ n, fuel = n + 1 := ⟨fuel - 1, by omega⟩
    simp only [List.length_append, List.length_cons] at hrounds hpos
    have hmethod : Leads (method.nesting ≤ levels) (Rules.atLevels rounds levels).function
        (ts ++ (vs ++ close :: us)) (vs ++ close :: us) (pure method) :=
      hmethods method List.mem_cons_self levels rounds ts _ hts
        (by simp only [List.length_append, List.length_cons]; omega)
    have hothers : Leads (FunctionDecl.listNesting methods ≤ levels)
        (methodsAtFuel (Rules.atLevels rounds levels).function fuel) (vs ++ close :: us)
        (close :: us) (pure methods) :=
      leads_methodsAtFuel hclose methods (fun f hf => hmethods f (List.mem_cons_of_mem _ hf)) fuel
        vs hvs (by simp only [List.length_append, List.length_cons]; omega)
        (by simp only [List.length_append, List.length_cons]; omega)
    have hround : Leads (method.nesting ≤ levels ∧ FunctionDecl.listNesting methods ≤ levels) (do
          let method ← (Rules.atLevels rounds levels).function
          let rest ← methodsAtFuel (Rules.atLevels rounds levels).function fuel
          return method :: rest) (ts ++ (vs ++ close :: us)) (close :: us)
        (pure (method :: methods)) :=
      hmethod.bind.trans (hothers.bind.passes passes_pure)
    have hbrace : (((word :: (ts ++ (vs ++ close :: us))).head?.map Token.kind)
        == some (.symbol .rightBrace)) = false := by
      refine beq_eq_false_iff_ne.2 fun hkind => ?_
      have hsame : Kind.symbol .rightBrace = .keyword .fnWord :=
        (Option.some.inj hkind).symm.trans hword
      cases hsame
    unfold methodsAtFuel
    refine ((passes_sees _).leads (passes_atEnd.leads ?_)).congr
      (by rw [FunctionDecl.listNesting, Nat.max_le])
    rw [hbrace]
    exact (passes_accept_true hword).leads hround

/-- A class is read if each of its methods is, whatever its body has between them. -/
theorem declarationAt_class {name : Name} {methods : List FunctionDecl}
    (hmethods : ∀ f ∈ methods, FunctionAt f) : DeclarationAt (.classOf ⟨name, methods⟩) := by
  intro levels rounds ts us hspells hlen _
  have hmarks : Stmt.spelling (.classOf ⟨name, methods⟩) = .word .classWord :: .name name
      :: .symbol .leftBrace :: ((FunctionDecl.methodSpelling methods ++ [.gap])
        ++ [.symbol .rightBrace]) := by
    simp [Stmt.spelling]
  rw [hmarks] at hspells
  obtain ⟨word, ts, rfl, hword, h₁⟩ := hspells.exists_cons (by simp)
  obtain ⟨t, ts, rfl, ht, h₂⟩ := h₁.exists_cons (by simp)
  obtain ⟨brace, ts, rfl, hbrace, h₃⟩ := h₂.exists_cons (by simp)
  obtain ⟨ts, vs, rfl, hts, h₄⟩ := spells_append.1 h₃
  obtain ⟨close, rfl, hclose⟩ := h₄.exists_singleton (by simp)
  simp only [List.append_assoc, List.cons_append, List.nil_append, List.length_cons,
    List.length_append] at hlen ⊢
  have hbody : Leads (FunctionDecl.listNesting methods ≤ levels)
      (methodsAtFuel (Rules.atLevels rounds levels).function rounds) (ts ++ close :: us)
      (close :: us) (pure methods) :=
    leads_methodsAtFuel hclose methods hmethods rounds ts hts
      (by simp only [List.length_append, List.length_cons]; omega)
      (by simp only [List.length_append, List.length_cons]; omega)
  have hclass : Leads (FunctionDecl.listNesting methods ≤ levels)
      (classDecl (Rules.atLevels rounds levels)) (t :: brace :: (ts ++ close :: us)) us
      (pure ⟨name, methods⟩) := by
    refine (passes_expectName ht).leads ((passes_expect hbrace).leads ?_)
    rw [Rules.rounds_atLevels]
    exact hbody.bind.passes ((passes_expect hclose).bind passes_pure)
  exact (passes_accept_true hword).leads (hclass.bind.passes passes_pure)

/-! ## Declarations of variables and functions -/

/-- A function that is read is read as a declaration too. -/
theorem declarationAt_function {f : FunctionDecl} (h : FunctionAt f) :
    DeclarationAt (.function f) := by
  intro levels rounds ts us hspells hlen _
  obtain ⟨word, ts, rfl, hword, hts⟩ := hspells.exists_cons (by simp)
  have hclass : ∀ t ∈ (word :: (ts ++ us)).head?, t.kind ≠ .keyword .classWord := by
    intro t ht
    cases ht
    rw [show word.kind = _ from hword]
    nofun
  rw [List.cons_append, List.length_cons] at hlen
  exact (passes_accept_false hclass).leads ((passes_accept_true hword).leads
    ((h levels rounds ts us hts (Nat.lt_of_succ_lt hlen)).bind.passes passes_pure))

/-- A variable's declaration behind its word. -/
theorem leads_variableDecl {levels rounds : Nat} {name : Name} {initial : Option Expr}
    (hwf : Expr.optionWellFormed initial = true) {t close : Token} {ts us : List Token}
    (ht : (Mark.name name).Admits t) (hclose : close.kind = .symbol .semicolon)
    (hts : Spells (Expr.optionSpelling [.symbol .equal] initial) ts)
    (hlen : (ts ++ close :: us).length < rounds) :
    Leads (Expr.optionNesting initial ≤ levels) (variableDecl (Rules.atLevels rounds levels))
      (t :: (ts ++ close :: us)) us (pure (.declare name initial)) := by
  refine (passes_expectName ht).leads ?_
  cases initial with
  | none =>
    rw [spells_nil.1 hts]
    have hnoequal : ∀ u ∈ (close :: us).head?, u.kind ≠ .symbol .equal := by
      intro u hu
      cases hu
      rw [hclose]
      nofun
    have hrule : Passes (do
        let _ ← expect (.symbol .semicolon) .declarationEnd
        return Stmt.declare name none) (close :: us) us (.declare name none) :=
      (passes_expect hclose).bind passes_pure
    exact (passes_accept_false hnoequal).leads
      (hrule.leads_pure.congr (by simp [Expr.optionNesting]))
  | some e =>
    obtain ⟨equal, ts, rfl, hequal, hts⟩ := hts.exists_cons (by simp)
    rw [List.cons_append, List.length_cons] at hlen
    have hvalue : Leads (e.nesting + 1 ≤ levels) (Rules.atLevels rounds levels).expression
        (ts ++ close :: us) (close :: us) (pure e) :=
      leads_expression hwf hts (by omega) (follows_symbol rfl hclose)
    exact (passes_accept_true hequal).leads
      (hvalue.bind.passes ((passes_expect hclose).bind passes_pure))

/-- A variable is read with the value that it starts with, or without one. -/
theorem declarationAt_declare {name : Name} {initial : Option Expr}
    (hwf : Expr.optionWellFormed initial = true) : DeclarationAt (.declare name initial) := by
  intro levels rounds ts us hspells hlen _
  obtain ⟨word, ts, rfl, hword, h₁⟩ := hspells.exists_cons (by simp)
  obtain ⟨t, ts, rfl, ht, h₂⟩ := h₁.exists_cons (by simp)
  obtain ⟨ts, vs, rfl, hts, h₃⟩ := spells_append.1 h₂
  obtain ⟨close, rfl, hclose⟩ := h₃.exists_singleton (by simp)
  simp only [List.append_assoc, List.cons_append, List.nil_append, List.length_cons] at hlen ⊢
  have hother : ∀ k : Keyword, k ≠ .letWord →
      ∀ u ∈ (word :: t :: (ts ++ close :: us)).head?, u.kind ≠ .keyword k := by
    rintro k hk u hu hkind
    cases hu
    have hsame : Kind.keyword k = .keyword .letWord := hkind.symm.trans hword
    cases hsame
    exact hk rfl
  have hvariable : Leads (Expr.optionNesting initial ≤ levels)
      (variableDecl (Rules.atLevels rounds levels)) (t :: (ts ++ close :: us)) us
      (pure (.declare name initial)) :=
    leads_variableDecl hwf ht hclose hts (by omega)
  refine (passes_accept_false (hother .classWord nofun)).leads ?_
  refine (passes_accept_false (hother .fnWord nofun)).leads ?_
  exact (passes_accept_true hword).leads hvariable

/-! ## Choices and loops -/

/-- The condition in parentheses that choices and loops start with. -/
theorem leads_condition {α : Type} {levels rounds : Nat} {condition : Expr} {p : Prop}
    {opens closes : Expectation} {rest : Expr → Parse α} [∀ e, Grows (rest e)] {next : Parse α}
    (hwf : condition.wellFormed = true) {paren close : Token} {ts us vs : List Token}
    (hparen : paren.kind = .symbol .leftParen) (hclose : close.kind = .symbol .rightParen)
    (hts : Spells condition.spelling ts) (hlen : (ts ++ close :: us).length < rounds)
    (hrest : Leads p (rest condition) us vs next) :
    Leads (condition.nesting + 1 ≤ levels ∧ p) (do
      let _ ← expect (.symbol .leftParen) opens
      let condition ← (Rules.atLevels rounds levels).expression
      let _ ← expect (.symbol .rightParen) closes
      rest condition) (paren :: (ts ++ close :: us)) vs next := by
  have hcondition : Leads (condition.nesting + 1 ≤ levels)
      (Rules.atLevels rounds levels).expression (ts ++ close :: us) (close :: us)
      (pure condition) :=
    leads_expression hwf hts hlen (follows_symbol rfl hclose)
  exact (passes_expect hparen).leads
    (hcondition.bind.trans ((passes_expect hclose).leads hrest))

/-- A loop is read if its body is. -/
theorem statementAt_loop {condition : Expr} {body : Stmt} (hwf : condition.wellFormed = true)
    (hbody : StatementAt body) : StatementAt (.loop condition body) := by
  refine .of_inner rfl fun levels rounds ts us hspells hlen helse => ?_
  rw [Stmt.spelling, List.cons_append, List.cons_append] at hspells
  obtain ⟨word, ts, rfl, hword, h₁⟩ := hspells.exists_cons (by simp)
  obtain ⟨paren, ts, rfl, hparen, h₂⟩ := h₁.exists_cons (by simp)
  obtain ⟨ts, vs, rfl, hts, h₃⟩ := spells_append.1 h₂
  obtain ⟨close, vs, rfl, hclose, hvs⟩ := h₃.exists_cons (by simp)
  simp only [List.append_assoc, List.cons_append, List.length_cons, List.length_append] at hlen ⊢
  have hinside := hbody levels rounds vs us hvs (by rw [List.length_append]; omega) helse
  have hbehind : Leads (body.nesting ≤ levels) (do
        let body ← (Rules.atLevels rounds levels).statement
        return Stmt.loop condition body) (vs ++ us) us (pure (.loop condition body)) :=
    hinside.bind.passes passes_pure
  have hrule : Leads (condition.nesting + 1 ≤ levels ∧ body.nesting ≤ levels) (do
        advance
        loop (Rules.atLevels rounds levels)) (word :: paren :: (ts ++ close :: (vs ++ us))) us
      (pure (.loop condition body)) :=
    passes_advance.leads (leads_condition hwf hparen hclose hts
      (by simp only [List.length_append, List.length_cons]; omega) hbehind)
  obtain ⟨kind, lexeme, line⟩ := word
  cases hword
  exact (hrule.congr Nat.max_le.symm).of_eq fun _ _ => rfl

/-- A branch that has no `else` is read if what it chooses is. -/
theorem statementAt_branch_none {condition : Expr} {thenBranch : Stmt}
    (hwf : condition.wellFormed = true) (hthen : StatementAt thenBranch) :
    StatementAt (.branch condition thenBranch none) := by
  refine .of_inner rfl fun levels rounds ts us hspells hlen helse => ?_
  rw [Stmt.spelling, List.cons_append, List.cons_append] at hspells
  obtain ⟨word, ts, rfl, hword, h₁⟩ := hspells.exists_cons (by simp)
  obtain ⟨paren, ts, rfl, hparen, h₂⟩ := h₁.exists_cons (by simp)
  obtain ⟨ts, vs, rfl, hts, h₃⟩ := spells_append.1 h₂
  obtain ⟨close, vs, rfl, hclose, hvs⟩ := h₃.exists_cons (by simp)
  simp only [List.append_assoc, List.cons_append, List.length_cons, List.length_append] at hlen ⊢
  have hnoelse : NoElse us := helse rfl
  have hinside := hthen levels rounds vs us hvs (by rw [List.length_append]; omega)
    fun _ => hnoelse
  have hbehind : Leads (thenBranch.nesting ≤ levels) (do
        let thenBranch ← (Rules.atLevels rounds levels).statement
        if ← accept (.keyword .elseWord) then
          let elseBranch ← (Rules.atLevels rounds levels).statement
          return Stmt.branch condition thenBranch (some elseBranch)
        else return Stmt.branch condition thenBranch none) (vs ++ us) us
      (pure (.branch condition thenBranch none)) :=
    hinside.bind.passes ((passes_accept_false hnoelse).bind passes_pure)
  have hrule : Leads (condition.nesting + 1 ≤ levels ∧ thenBranch.nesting ≤ levels) (do
        advance
        branch (Rules.atLevels rounds levels)) (word :: paren :: (ts ++ close :: (vs ++ us))) us
      (pure (.branch condition thenBranch none)) :=
    passes_advance.leads (leads_condition hwf hparen hclose hts
      (by simp only [List.length_append, List.length_cons]; omega) hbehind)
  obtain ⟨kind, lexeme, line⟩ := word
  cases hword
  exact (hrule.congr Nat.max_le.symm).of_eq fun _ _ => rfl

/-- The first branch is closed, so that it leaves the `else` behind it to this choice. -/
theorem statementAt_branch_some {condition : Expr} {thenBranch elseBranch : Stmt}
    (hwf : condition.wellFormed = true) (hclosed : thenBranch.endsOpen = false)
    (hthen : StatementAt thenBranch) (helse : StatementAt elseBranch) :
    StatementAt (.branch condition thenBranch (some elseBranch)) := by
  refine .of_inner rfl fun levels rounds ts us hspells hlen hopen => ?_
  rw [Stmt.spelling] at hspells
  simp only [List.cons_append, List.append_assoc] at hspells
  obtain ⟨word, ts, rfl, hword, h₁⟩ := hspells.exists_cons (by simp)
  obtain ⟨paren, ts, rfl, hparen, h₂⟩ := h₁.exists_cons (by simp)
  obtain ⟨ts, vs, rfl, hts, h₃⟩ := spells_append.1 h₂
  obtain ⟨close, vs, rfl, hclose, h₄⟩ := h₃.exists_cons (by simp)
  obtain ⟨vs, ws, rfl, hvs, h₅⟩ := spells_append.1 h₄
  obtain ⟨other, ws, rfl, hother, hws⟩ := h₅.exists_cons (by simp)
  simp only [List.append_assoc, List.cons_append, List.length_cons, List.length_append] at hlen ⊢
  have hfirst := hthen levels rounds vs (other :: (ws ++ us)) hvs
    (by simp only [List.length_append, List.length_cons]; omega) (by rw [hclosed]; nofun)
  have hsecond := helse levels rounds ws us hws (by rw [List.length_append]; omega) hopen
  have hchosen : Leads (elseBranch.nesting ≤ levels) (do
        let elseBranch ← (Rules.atLevels rounds levels).statement
        return Stmt.branch condition thenBranch (some elseBranch)) (ws ++ us) us
      (pure (.branch condition thenBranch (some elseBranch))) :=
    hsecond.bind.passes passes_pure
  have hbehind : Leads (thenBranch.nesting ≤ levels ∧ elseBranch.nesting ≤ levels) (do
        let thenBranch ← (Rules.atLevels rounds levels).statement
        if ← accept (.keyword .elseWord) then
          let elseBranch ← (Rules.atLevels rounds levels).statement
          return Stmt.branch condition thenBranch (some elseBranch)
        else return Stmt.branch condition thenBranch none) (vs ++ other :: (ws ++ us)) us
      (pure (.branch condition thenBranch (some elseBranch))) :=
    hfirst.bind.trans ((passes_accept_true hother).leads hchosen)
  have hrule : Leads (condition.nesting + 1 ≤ levels
        ∧ thenBranch.nesting ≤ levels ∧ elseBranch.nesting ≤ levels) (do
        advance
        branch (Rules.atLevels rounds levels))
      (word :: paren :: (ts ++ close :: (vs ++ other :: (ws ++ us)))) us
      (pure (.branch condition thenBranch (some elseBranch))) :=
    passes_advance.leads (leads_condition hwf hparen hclose hts
      (by simp only [List.length_append, List.length_cons]; omega) hbehind)
  obtain ⟨kind, lexeme, line⟩ := word
  cases hword
  have hdepth : condition.nesting + 1 ≤ levels
      ∧ thenBranch.nesting ≤ levels ∧ elseBranch.nesting ≤ levels
      ↔ max (condition.nesting + 1) (max thenBranch.nesting elseBranch.nesting) ≤ levels := by
    rw [Nat.max_le, Nat.max_le]
  exact (hrule.congr hdepth).of_eq fun _ _ => rfl

/-- A block is read if every declaration in it is. -/
theorem statementAt_block {body : List Stmt}
    (hbody : ∀ s ∈ body, s.wellFormed = true ∧ DeclarationAt s) : StatementAt (.block body) := by
  refine .of_inner rfl fun levels rounds ts us hspells hlen _ => ?_
  obtain ⟨brace, ts, rfl, hbrace, h₁⟩ := hspells.exists_cons (by simp)
  obtain ⟨ts, vs, rfl, hts, h₂⟩ := spells_append.1 h₁
  obtain ⟨close, rfl, hclose⟩ := h₂.exists_singleton (by simp)
  simp only [List.append_assoc, List.cons_append, List.nil_append, List.length_cons] at hlen ⊢
  have hblock : Leads (Stmt.listNesting body ≤ levels) (block (Rules.atLevels rounds levels))
      (ts ++ close :: us) us (pure body) :=
    leads_block hbody hclose hts (by omega)
  have hrule : Leads (Stmt.listNesting body ≤ levels) (do
        advance
        return Stmt.block (← block (Rules.atLevels rounds levels)))
      (brace :: (ts ++ close :: us)) us (pure (.block body)) :=
    passes_advance.leads (hblock.bind.passes passes_pure)
  obtain ⟨kind, lexeme, line⟩ := brace
  cases hbrace
  exact hrule.of_eq fun _ _ => rfl

/-! ## All statements -/

mutual

/-- The recursion follows the tree: a statement that declares nothing. -/
theorem statementAt_of_wellFormed : (s : Stmt) → s.wellFormed = true → s.isDeclaration = false →
    StatementAt s
  | .expression value, hwf, _ => statementAt_expression hwf
  | .print value, hwf, _ => statementAt_print hwf
  | .leave line value, hwf, _ => statementAt_leave hwf
  | .block body, hwf, _ => by
    have hbody : ∀ s ∈ body, s.wellFormed = true := Stmt.listWellFormed_iff.1 hwf
    exact statementAt_block fun s hs =>
      ⟨hbody s hs, declarationAt_of_wellFormed s (hbody s hs)⟩
  | .loop condition body, hwf, _ => by
    simp only [Stmt.wellFormed, Bool.and_eq_true, Bool.not_eq_true'] at hwf
    exact statementAt_loop hwf.1.1 (statementAt_of_wellFormed body hwf.2 hwf.1.2)
  | .branch condition thenBranch none, hwf, _ => by
    simp only [Stmt.wellFormed, Bool.and_eq_true, Bool.not_eq_true'] at hwf
    exact statementAt_branch_none hwf.1.1 (statementAt_of_wellFormed thenBranch hwf.2 hwf.1.2)
  | .branch condition thenBranch (some elseBranch), hwf, _ => by
    simp only [Stmt.wellFormed, Bool.and_eq_true, Bool.not_eq_true'] at hwf
    obtain ⟨⟨⟨⟨⟨hcondition, hthen⟩, hwft⟩, hclosed⟩, helse⟩, hwfe⟩ := hwf
    exact statementAt_branch_some hcondition hclosed
      (statementAt_of_wellFormed thenBranch hwft hthen)
      (statementAt_of_wellFormed elseBranch hwfe helse)
  | .declare name initial, _, hs => by cases hs
  | .function declaration, _, hs => by cases hs
  | .classOf declaration, _, hs => by cases hs

/-- Any statement or declaration. -/
theorem declarationAt_of_wellFormed : (s : Stmt) → s.wellFormed = true → DeclarationAt s
  | .declare name initial, hwf => declarationAt_declare hwf
  | .function declaration, hwf =>
    declarationAt_function (functionAt_of_wellFormed declaration hwf)
  | .classOf ⟨name, methods⟩, hwf => by
    have hmethods : ∀ f ∈ methods, f.wellFormed = true := FunctionDecl.listWellFormed_iff.1 hwf
    exact declarationAt_class fun f hf => functionAt_of_wellFormed f (hmethods f hf)
  | .expression value, hwf =>
    (statementAt_of_wellFormed (.expression value) hwf rfl).declarationAt hwf rfl
  | .print value, hwf => (statementAt_of_wellFormed (.print value) hwf rfl).declarationAt hwf rfl
  | .leave line value, hwf =>
    (statementAt_of_wellFormed (.leave line value) hwf rfl).declarationAt hwf rfl
  | .block body, hwf => (statementAt_of_wellFormed (.block body) hwf rfl).declarationAt hwf rfl
  | .loop condition body, hwf =>
    (statementAt_of_wellFormed (.loop condition body) hwf rfl).declarationAt hwf rfl
  | .branch condition thenBranch elseBranch, hwf =>
    (statementAt_of_wellFormed (.branch condition thenBranch elseBranch) hwf rfl).declarationAt
      hwf rfl

/-- Every well-formed function is read. -/
theorem functionAt_of_wellFormed : (f : FunctionDecl) → f.wellFormed = true → FunctionAt f
  | ⟨name, params, body⟩, hwf => by
    simp only [FunctionDecl.wellFormed, Bool.and_eq_true, decide_eq_true_eq] at hwf
    have hbody : ∀ s ∈ body, s.wellFormed = true := Stmt.listWellFormed_iff.1 hwf.2
    exact functionAt_of_body hwf.1 fun s hs =>
      ⟨hbody s hs, declarationAt_of_wellFormed s (hbody s hs)⟩

end

end Grammar

/-! ## Programs -/

/-- What a program spelled by tokens is answered with: the program itself, or the complaint first of
all that it nests too deep. -/
def Program.Answers (program : Program) (answer : Except (List Problem) Program) : Prop :=
  (program.nesting ≤ maxNesting → answer = .ok program)
    ∧ (maxNesting < program.nesting →
      ∃ found line rest, answer = .error (.grammatical ⟨.tooDeep found, line⟩ :: rest))

/-- The rule for the top level, on tokens that spell a program. -/
theorem Program.leads_topLevel {program : Program} {tokens : List Token}
    (hwf : program.wellFormed = true) (hspells : Spells program.spelling tokens) :
    Parse.Leads (program.nesting ≤ maxNesting)
      (Grammar.declarationsAtFuel (Rules.atLevels (tokens.length + 1) maxNesting) Parse.atEnd
        (tokens.length + 1)) tokens [] (pure program.declarations) := by
  have hbody : ∀ s ∈ program.declarations, s.wellFormed = true := Stmt.listWellFormed_iff.1 hwf
  have hstops : Parse.Passes Parse.atEnd [] [] true := Parse.passes_atEnd
  have hnoelse : Grammar.NoElse [] := nofun
  have hlen : (tokens ++ []).length < tokens.length + 1 := by simp
  have hleads : Parse.Leads (Stmt.listNesting program.declarations ≤ maxNesting)
      (Grammar.declarationsAtFuel (Rules.atLevels (tokens.length + 1) maxNesting) Parse.atEnd
        (tokens.length + 1)) (tokens ++ []) [] (pure program.declarations) :=
    Grammar.leads_declarationsAtFuel hstops (fun _ _ _ => Parse.passes_atEnd) hnoelse
      program.declarations
      (fun s hs => ⟨hbody s hs, Grammar.declarationAt_of_wellFormed s (hbody s hs)⟩)
      (tokens.length + 1) tokens hspells hlen hlen
  rwa [List.append_nil] at hleads

/-- Reading from before tokens that spell a program. -/
theorem Program.answers_readProgram {program : Program} {tokens : List Token}
    (hwf : program.wellFormed = true) (hspells : Spells program.spelling tokens) (line : Nat) :
    program.Answers (Cursor.before tokens line #[]).readProgram.1 := by
  have hleads := Program.leads_topLevel hwf hspells
  have hrule : (Cursor.before tokens line #[]).topLevel =
      Grammar.declarationsAtFuel (Rules.atLevels (tokens.length + 1) maxNesting) Parse.atEnd
        (tokens.length + 1) := by
    simp [Cursor.topLevel, Cursor.before]
  constructor
  · intro hfits
    refine (Cursor.readProgram_eq_ok_iff rfl).2 ⟨Cursor.before [] line #[], ?_, rfl⟩
    rw [hrule, hleads.arrives hfits]
    rfl
  · intro hdeep
    obtain ⟨found, at_, hprefix⟩ := hleads.overflows (Nat.not_le.2 hdeep) line #[]
    obtain ⟨rest, hrest⟩ := hprefix
    rw [← hrule] at hrest
    refine ⟨found, at_, rest, ?_⟩
    rw [Cursor.readProgram_eq_error rfl (by rw [← hrest]; simp), ← hrest]
    rfl

/-- Where no token marks a lexical fault, sorting tokens only drops the end of the source. -/
theorem Lexing.ofTokens_of_clean : ∀ {tokens : List Token}, (∀ t ∈ tokens, t.fault? = none) →
    Lexing.ofTokens tokens = ⟨[], (tokens.filter fun t => !t.isEof).map Lexed.bare⟩
  | [], _ => rfl
  | t :: rest, h => by
    have ht := h t List.mem_cons_self
    have hrest := Lexing.ofTokens_of_clean fun u hu => h u (List.mem_cons_of_mem _ hu)
    unfold Lexing.ofTokens
    rw [ht, hrest]
    cases hend : t.isEof with
    | true => simp [hend]
    | false => simp [hend, Lexed.bare]

/-- **Completeness.** Tokens that spell a well-formed program are read as this program exactly if it
does not nest deeper than the limit; otherwise that is the first complaint. This holds of every
cursor before such tokens, and so of every source that has them and no lexical fault. -/
theorem parse_complete {program : Program} {tokens : List Token}
    (hwf : program.wellFormed = true) (hspells : Spells program.spelling tokens) :
    (∀ line, program.Answers (Cursor.before tokens line #[]).readProgram.1)
      ∧ ∀ source, (∀ t ∈ tokenize source, t.fault? = none) →
        ((tokenize source).filter fun t => !t.isEof) = tokens →
          program.Answers (parse source) := by
  have hanswers := Program.answers_readProgram hwf hspells
  refine ⟨hanswers, fun source hclean htokens => ?_⟩
  have hlexing := Lexing.ofTokens_of_clean hclean
  rw [htokens] at hlexing
  have hcursor : Cursor.ofLexer (.ofSource source) =
      Cursor.before tokens (Cursor.lastLine (Lexer.ofSource source).line (tokenize source))
        #[] := by
    show Cursor.recordFaults ⟨(Lexing.ofTokens (tokenize source)).tokens, _, #[], 0⟩
      (Lexing.ofTokens (tokenize source)).leading = _
    rw [hlexing]
    rfl
  unfold parse
  rw [hcursor]
  exact hanswers _

/-- A class with a stray name in it, read from its tokens on any line and from its source. -/
theorem parse_complete_stray_name :
    (∀ line, Program.Answers ⟨[.classOf ⟨⟨"A", 1⟩, []⟩]⟩
      (Cursor.before [⟨.keyword .classWord, "class", 1⟩, ⟨.identifier, "A", 1⟩,
        ⟨.symbol .leftBrace, "\x7b", 1⟩, ⟨.identifier, "x", 1⟩, ⟨.symbol .rightBrace, "\x7d", 1⟩]
        line #[]).readProgram.1)
      ∧ parse "class A \x7b x \x7d" = .ok ⟨[.classOf ⟨⟨"A", 1⟩, []⟩]⟩ := by
  have hgap : Spells [.gap, .symbol .rightBrace]
      [⟨.identifier, "x", 1⟩, ⟨.symbol .rightBrace, "\x7d", 1⟩] :=
    .gap_cons rfl (spells_gap.2 ⟨[], _, rfl, nofun, .singleton rfl⟩)
  have hspells : Spells (Program.spelling ⟨[.classOf ⟨⟨"A", 1⟩, []⟩]⟩)
      [⟨.keyword .classWord, "class", 1⟩, ⟨.identifier, "A", 1⟩, ⟨.symbol .leftBrace, "\x7b", 1⟩,
        ⟨.identifier, "x", 1⟩, ⟨.symbol .rightBrace, "\x7d", 1⟩] :=
    .cons rfl (.cons ⟨rfl, rfl, rfl⟩ (.cons rfl hgap))
  obtain ⟨hcursor, hsource⟩ := parse_complete rfl hspells
  have hclean : ∀ t ∈ tokenize "class A \x7b x \x7d", t.fault? = none := by decide +kernel
  exact ⟨hcursor, (hsource _ hclean (by decide +kernel)).1 (Nat.zero_le _)⟩

end Quill
