import Quill.Proofs.Grammar.Leading

/-!
# Expressions are read as they are spelled

The rules for expressions form a ladder, one rung for each tier. On tokens that spell a well-formed
expression, the rule of every tier up to that of the expression comes to just this expression, if
what stands behind does not go on with it (`Follows`), and if it does not nest too deep.

The operators of a tier group to the left, and so do calls and properties, but the tree is read from
the left: when the rule is done with the left operand, it is inside its loop. So the statement that
carries the recursion on the tree is about the loop and not only about the rule. `SpineAt` and
`AccessAt` say where the loop is when an expression has been read; `Complete` puts together what is
known of one expression, and `complete_of_wellFormed` proves it of all.
-/

namespace Quill

namespace Grammar

open Parse

/-! ## The ladder of expressions -/

/-- The rule for expressions of a tier or a tighter one. -/
def ladder (inner : Rules) : Nat → Parse Expr
  | 0 => expression inner
  | 1 => equality inner
  | 2 => comparison inner
  | 3 => term inner
  | 4 => factor inner
  | 5 => unary inner
  | _ => call inner

/-- The operators of a tier. -/
def operatorsOf (tier : Nat) (kind : Kind) : Bool :=
  kind.tier? == some tier

/-- Between unary operators and assignments, a rule is a chain of operands one tier tighter. -/
theorem ladder_eq_chain (inner : Rules) {tier : Nat} (hlow : 1 ≤ tier) (hhigh : tier ≤ 4) :
    ladder inner tier = chain inner.rounds (operatorsOf tier) (ladder inner (tier + 1)) := by
  have hfun : ∀ {test : Kind → Bool}, (∀ kind, test kind = true ↔ kind.tier? = some tier) →
      test = operatorsOf tier := by
    intro test htest
    funext kind
    rw [Bool.eq_iff_iff, htest, operatorsOf, beq_iff_eq]
  obtain rfl | rfl | rfl | rfl : tier = 1 ∨ tier = 2 ∨ tier = 3 ∨ tier = 4 := by omega
  · rw [← hfun fun _ => isEqualityOperator_iff]
    rfl
  · rw [← hfun fun _ => isComparisonOperator_iff]
    rfl
  · rw [← hfun fun _ => isTermOperator_iff]
    rfl
  · rw [← hfun fun _ => isFactorOperator_iff]
    rfl

instance (inner : Rules) [inner.Grow] (tier : Nat) : Grows (ladder inner tier) := by
  unfold ladder
  split
  all_goals infer_instance

/-- A token that would be taken as part of an expression of the tier or a tighter one, if it stood
behind it. -/
def continues (tier : Nat) : Kind → Bool
  | .symbol .leftParen => true
  | .symbol .dot => true
  | .symbol .equal => tier == 0
  | kind => kind.tier?.any (tier ≤ ·)

/-- The tokens do not go on with an expression of the tier. -/
def Follows (tier : Nat) (us : List Token) : Prop :=
  ∀ t ∈ us.head?, continues tier t.kind = false

/-- What does not continue a lower tier does not continue a higher one. -/
theorem Follows.mono {low high : Nat} {us : List Token} (h : Follows low us) (hle : low ≤ high) :
    Follows high us := by
  intro t ht
  have hlow := h t ht
  revert hlow
  unfold continues
  split
  · exact id
  · exact id
  · intro hlow
    simp only [beq_eq_false_iff_ne] at hlow ⊢
    omega
  · intro hlow
    cases htier : t.kind.tier? with
    | none => rfl
    | some tier =>
      rw [htier] at hlow
      simp only [Option.any_some, decide_eq_false_iff_not] at hlow ⊢
      omega

/-- Behind an expression of a tier there is no operator of that tier. -/
theorem Follows.not_operator {tier : Nat} {us : List Token} (h : Follows tier us) :
    ∀ t ∈ us.head?, operatorsOf tier t.kind = false := by
  intro t ht
  have hnext := h t ht
  unfold continues at hnext
  unfold operatorsOf
  split at hnext
  · cases hnext
  · cases hnext
  · next hkind =>
    rw [hkind]
    rfl
  · cases htier : t.kind.tier? with
    | none => rfl
    | some other =>
      rw [htier] at hnext
      simp only [Option.any_some, decide_eq_false_iff_not] at hnext
      simp only [beq_eq_false_iff_ne, ne_eq, Option.some.injEq]
      omega

/-- The first token behind an expression of the tier is none that continues it. -/
theorem Follows.kind_ne {tier : Nat} {us : List Token} (h : Follows tier us) {kind : Kind}
    (hkind : continues tier kind = true) : ∀ t ∈ us.head?, t.kind ≠ kind := by
  rintro t ht rfl
  rw [h t ht] at hkind
  cases hkind

/-- Whether an expression may end here is seen from the next token alone. -/
theorem follows_cons {tier : Nat} {t : Token} {us : List Token} :
    Follows tier (t :: us) ↔ continues tier t.kind = false :=
  ⟨fun h => h t rfl, fun h u hu => by cases hu; exact h⟩

/-! ## Ways through the ladder

Each of the three predicates follows the rules on tokens that spell an expression: the whole rule of
a tier (`ReadAt`), the loop over the operators of a tier with the expression as what has been read
so far (`SpineAt`), and in the same way the loop over calls and properties (`AccessAt`). The loops
are left with more rounds than there are tokens. -/

/-- The rule of a tier reads the expression. -/
def ReadAt (tier : Nat) (e : Expr) : Prop :=
  ∀ (levels rounds : Nat) (ts us : List Token), Spells e.spelling ts →
    (ts ++ us).length < rounds → Follows tier us →
      Leads (e.nesting ≤ levels) (ladder (Rules.atLevels rounds levels) tier) (ts ++ us) us (pure e)

/-- The chain of a tier comes to the expression. -/
def SpineAt (tier : Nat) (e : Expr) : Prop :=
  ∀ (levels rounds : Nat) (ts us : List Token), Spells e.spelling ts →
    (ts ++ us).length < rounds → Follows (tier + 1) us →
      ∃ fuel, us.length < fuel ∧
        Leads (e.nesting ≤ levels)
          (chain rounds (operatorsOf tier) (ladder (Rules.atLevels rounds levels) (tier + 1)))
          (ts ++ us) us
          (chainAtFuel (operatorsOf tier) (ladder (Rules.atLevels rounds levels) (tier + 1)) fuel e)

/-- The loop over calls and properties comes to the expression. -/
def AccessAt (e : Expr) : Prop :=
  ∀ (levels rounds : Nat) (ts us : List Token), Spells e.spelling ts →
    (ts ++ us).length < rounds →
      ∃ fuel, us.length < fuel ∧
        Leads (e.nesting ≤ levels) (call (Rules.atLevels rounds levels)) (ts ++ us) us
          (accessesAtFuel (Rules.atLevels rounds levels) fuel e)

/-- A chain of operators ends where no operator of its tier follows. -/
theorem passes_chainAtFuel {tier fuel : Nat} {operand : Parse Expr} {e : Expr} {us : List Token}
    (h : Follows tier us) : Passes (chainAtFuel (operatorsOf tier) operand fuel e) us us e := by
  cases fuel with
  | zero => exact passes_pure
  | succ fuel => exact (passes_acceptIf?_none h.not_operator).bind passes_pure

/-- A chain of accesses ends where neither a call nor a property follows. -/
theorem passes_accessesAtFuel {inner : Rules} {fuel : Nat} {e : Expr} {us : List Token}
    (h : Follows 6 us) : Passes (accessesAtFuel inner fuel e) us us e := by
  cases fuel with
  | zero => exact passes_pure
  | succ fuel =>
    exact (passes_accept_false (h.kind_ne rfl)).bind
      ((passes_accept_false (h.kind_ne rfl)).bind passes_pure)

/-- An expression of the next tier is a chain of this tier with one operand. -/
theorem SpineAt.of_readAt {tier : Nat} {e : Expr} (h : ReadAt (tier + 1) e) : SpineAt tier e := by
  intro levels rounds ts us hspells hlen hfollows
  refine ⟨rounds, ?_, (h levels rounds ts us hspells hlen hfollows).bind⟩
  rw [List.length_append] at hlen
  omega

/-- A chain of operators is an expression of its tier. -/
theorem SpineAt.readAt {tier : Nat} {e : Expr} (hlow : 1 ≤ tier) (hhigh : tier ≤ 4)
    (h : SpineAt tier e) : ReadAt tier e := by
  intro levels rounds ts us hspells hlen hfollows
  obtain ⟨fuel, -, hleads⟩ := h levels rounds ts us hspells hlen (hfollows.mono (Nat.le_succ _))
  rw [ladder_eq_chain _ hlow hhigh, Rules.rounds_atLevels]
  exact hleads.passes (passes_chainAtFuel hfollows)

/-- One round of the chain of a tier. -/
theorem SpineAt.binary {tier : Nat} {left right : Expr} {operator : Token}
    (htier : operator.kind.tier? = some tier) (hleft : SpineAt tier left)
    (hright : ReadAt (tier + 1) right) : SpineAt tier (.binary left operator right) := by
  intro levels rounds ts us hspells hlen hfollows
  obtain ⟨ts, vs, rfl, hts, hvs⟩ := spells_append.1 hspells
  obtain ⟨t, ws, rfl, rfl, hws⟩ := hvs.exists_cons (by simp)
  rw [List.append_assoc, List.cons_append] at hlen ⊢
  have hbetween : Follows (tier + 1) (t :: (ws ++ us)) := by
    have hkind : ∀ {kind : Kind}, kind.tier? = some tier → continues (tier + 1) kind = false := by
      intro kind hkind
      unfold continues
      split
      · cases hkind
      · cases hkind
      · cases hkind
      · simp [hkind]
    exact follows_cons.2 (hkind htier)
  obtain ⟨fuel, hfuel, hleads⟩ := hleft levels rounds ts _ hts hlen hbetween
  obtain ⟨fuel, rfl⟩ : ∃ n, fuel = n + 1 := ⟨fuel - 1, by omega⟩
  simp only [List.length_append, List.length_cons] at hlen hfuel
  refine ⟨fuel, by omega, ?_⟩
  have hoperand := hright levels rounds ws us hws (by rw [List.length_append]; omega) hfollows
  have hround : Leads (right.nesting ≤ levels)
      (chainAtFuel (operatorsOf tier) (ladder (Rules.atLevels rounds levels) (tier + 1))
        (fuel + 1) left) (t :: (ws ++ us)) us
      (chainAtFuel (operatorsOf tier) (ladder (Rules.atLevels rounds levels) (tier + 1)) fuel
        (.binary left t right)) := by
    have hoperator : operatorsOf tier t.kind = true := by simp [operatorsOf, htier]
    exact (passes_acceptIf?_some hoperator).leads hoperand.bind
  exact (hleads.trans hround).congr (by rw [Expr.nesting, Nat.max_le])

/-- A chain of accesses is an expression of the highest tier. -/
theorem AccessAt.readAt {e : Expr} (h : AccessAt e) : ReadAt 6 e := by
  intro levels rounds ts us hspells hlen hfollows
  obtain ⟨fuel, -, hleads⟩ := h levels rounds ts us hspells hlen
  exact hleads.passes (passes_accessesAtFuel hfollows)

/-- A rule also reads what the rule one tier tighter reads. -/
theorem ReadAt.loosen {tier : Nat} {e : Expr} (h : ReadAt (tier + 1) e) (hle : tier ≤ 4) :
    ReadAt tier e := by
  cases tier with
  | succ tier => exact SpineAt.readAt (by omega) hle (.of_readAt h)
  | zero =>
    intro levels rounds ts us hspells hlen hfollows
    have hleft := h levels rounds ts us hspells hlen (hfollows.mono (Nat.le_succ _))
    have hnext : ∀ t ∈ us.head?, (t.kind == .symbol .equal) = false := fun t ht => by
      simpa using hfollows.kind_ne rfl t ht
    refine (hleft.bind_of fun left => Grows.bind (grows_assignmentBehind _ left)).passes ?_
    exact (passes_acceptIf?_none hnext).bind passes_pure

/-- What is read at a higher tier is read at every lower one. -/
theorem ReadAt.loosen_le {low high : Nat} {e : Expr} (h : ReadAt high e) (hhigh : high ≤ 5)
    (hle : low ≤ high) : ReadAt low e := by
  induction high with
  | zero => rwa [Nat.le_zero.1 hle]
  | succ high ih =>
    rcases Nat.lt_or_ge high low with hlt | hge
    · rwa [Nat.le_antisymm hle hlt]
    · exact ih (h.loosen (by omega)) (by omega) hge

/-- A call starts with no operator, so the rule for unary operators leaves it to the rule for
calls. -/
theorem ReadAt.loosen_call {e : Expr} (h : ReadAt 6 e) (hwf : e.wellFormed = true)
    (htier : e.tier = 6) : ReadAt 5 e := by
  intro levels rounds ts us hspells hlen hfollows
  obtain ⟨t, rest, rfl, -, hstart⟩ := exists_cons_of_spells_expr e hwf hspells
  have hnext : ∀ u ∈ (t :: rest ++ us).head?, isUnaryOperator u.kind = false := by
    intro u hu
    cases hu
    exact hstart htier
  exact (passes_acceptIf?_none hnext).leads
    (h levels rounds _ us hspells hlen (hfollows.mono (Nat.le_succ _)))

/-! ## Positions one level further in -/

/-- An expression in a position of its own is one level further in. -/
theorem ReadAt.leads_expression {e : Expr} (h : ReadAt 0 e) {levels rounds : Nat}
    {ts us : List Token} (hspells : Spells e.spelling ts) (hlen : (ts ++ us).length < rounds)
    (hfollows : Follows 0 us) :
    Leads (e.nesting + 1 ≤ levels) (Rules.atLevels rounds levels).expression (ts ++ us) us
      (pure e) := by
  cases levels with
  | zero => exact leads_tooDeep (Nat.not_succ_le_zero _)
  | succ levels =>
    exact (h levels rounds ts us hspells hlen hfollows).congr Nat.succ_le_succ_iff.symm

/-- An operand of the fifth tier is read where a unary operator may stand. -/
theorem ReadAt.leads_unary {e : Expr} (h : ReadAt 5 e) {levels rounds : Nat}
    {ts us : List Token} (hspells : Spells e.spelling ts) (hlen : (ts ++ us).length < rounds)
    (hfollows : Follows 5 us) :
    Leads (e.nesting + 1 ≤ levels) (Rules.atLevels rounds levels).unary (ts ++ us) us
      (pure e) := by
  cases levels with
  | zero => exact leads_tooDeep (Nat.not_succ_le_zero _)
  | succ levels =>
    exact (h levels rounds ts us hspells hlen hfollows).congr Nat.succ_le_succ_iff.symm

/-! ## Items with commas between them -/

/-- What is asked of one item of a list: the rule reads it if a comma or the closing parenthesis is
next, and it does not start with that parenthesis. -/
structure ItemAt {α : Type} (item : Parse α) (fits : Prop) (rounds : Nat) (marks : List Mark)
    (a : α) : Prop where
  leads : ∀ ts us, Spells marks ts → (ts ++ us).length < rounds →
    (∀ t ∈ us.head?, t.kind = .symbol .comma ∨ t.kind = .symbol .rightParen) →
    Leads fits item (ts ++ us) us (pure a)
  starts : ∀ ts, Spells marks ts → ∃ t rest, ts = t :: rest ∧ t.kind ≠ .symbol .rightParen

/-- Items with commas between them are read up to the closing parenthesis. -/
theorem leads_separatedAtFuel {α : Type} {item : Parse α} [Grows item] {tooMany : GrammarCause}
    {spelling : α → List Mark} {fits : α → Prop} {rounds : Nat} {close : Token} {us : List Token}
    (hclose : close.kind = .symbol .rightParen) :
    ∀ (first : α) (rest : List α),
      (∀ a ∈ first :: rest, ItemAt item (fits a) rounds (spelling a) a) →
      ∀ (fuel count : Nat) (ts : List Token),
        Spells (commaSeparated ((first :: rest).map spelling)) ts →
        (ts ++ close :: us).length < rounds → (ts ++ close :: us).length < fuel →
        (first :: rest).length + count ≤ maxArity →
        Leads (∀ a ∈ first :: rest, fits a) (separatedAtFuel item tooMany fuel count)
          (ts ++ close :: us) (close :: us) (pure (first :: rest))
  | _, _, _, 0, _, _, _, _, hfuel, _ => absurd hfuel (Nat.not_lt_zero _)
  | first, [], hitems, fuel + 1, count, ts, hspells, hrounds, hfuel, hcount => by
    unfold separatedAtFuel
    rw [List.length_singleton] at hcount
    rw [if_neg (by omega)]
    have hfirst := (hitems first (by simp)).leads ts (close :: us) hspells hrounds
      (fun t ht => by cases ht; exact .inr hclose)
    have hnocomma : ∀ t ∈ (close :: us).head?, t.kind ≠ .symbol .comma := by
      intro t ht
      cases ht
      rw [hclose]
      nofun
    refine (hfirst.bind.passes ?_).congr (by simp)
    exact (passes_accept_false hnocomma).bind passes_pure
  | first, second :: rest, hitems, fuel + 1, count, ts, hspells, hrounds, hfuel, hcount => by
    unfold separatedAtFuel
    simp only [List.length_cons] at hcount
    rw [if_neg (by omega)]
    obtain ⟨ts, vs, rfl, hts, hvs⟩ := spells_append.1 hspells
    obtain ⟨comma, ws, rfl, hcomma, hws⟩ := hvs.exists_cons (by simp)
    simp only [List.append_assoc, List.cons_append] at hrounds hfuel ⊢
    have hfirst := (hitems first (by simp)).leads ts (comma :: (ws ++ close :: us)) hts hrounds
      (fun t ht => by cases ht; exact .inl hcomma)
    simp only [List.length_append, List.length_cons] at hrounds hfuel
    have hrest : Leads (∀ a ∈ second :: rest, fits a)
        (separatedAtFuel item tooMany fuel (count + 1)) (ws ++ close :: us) (close :: us)
        (pure (second :: rest)) := leads_separatedAtFuel hclose second rest
      (fun a ha => hitems a (List.mem_cons_of_mem _ ha)) fuel (count + 1) ws hws
      (by simp only [List.length_append, List.length_cons]; omega)
      (by simp only [List.length_append, List.length_cons]; omega)
      (by simp only [List.length_cons]; omega)
    have hbehind : Leads (∀ a ∈ second :: rest, fits a)
        (separatedAtFuel item tooMany fuel (count + 1) >>= fun rest => pure (first :: rest))
        (ws ++ close :: us) (close :: us) (pure (first :: second :: rest)) :=
      hrest.bind.passes passes_pure
    refine (hfirst.bind.trans ((passes_accept_true hcomma).leads hbehind)).congr ?_
    simp

/-- A list of items that may be empty is read up to the closing parenthesis. -/
theorem leads_separated {α : Type} {item : Parse α} [Grows item] {tooMany : GrammarCause}
    {spelling : α → List Mark} {fits : α → Prop} {rounds : Nat} {close : Token} {us : List Token}
    (hclose : close.kind = .symbol .rightParen) {items : List α}
    (hitems : ∀ a ∈ items, ItemAt item (fits a) rounds (spelling a) a)
    {ts : List Token} (hspells : Spells (commaSeparated (items.map spelling)) ts)
    (hrounds : (ts ++ close :: us).length < rounds) (hlen : items.length ≤ maxArity) :
    Leads (∀ a ∈ items, fits a) (separated rounds item tooMany) (ts ++ close :: us) (close :: us)
      (pure items) := by
  refine (passes_sees _).leads ?_
  cases items with
  | nil =>
    rw [spells_nil.1 hspells]
    simp only [List.nil_append, List.head?_cons, Option.map_some, hclose, beq_self_eq_true, if_true]
    exact passes_pure.leads_pure.congr (by simp)
  | cons first rest =>
    have hstart : ∃ t more, ts = t :: more ∧ t.kind ≠ .symbol .rightParen := by
      cases rest with
      | nil => exact (hitems first (by simp)).starts ts hspells
      | cons second rest =>
        obtain ⟨ts, vs, rfl, hts, -⟩ := spells_append.1 hspells
        obtain ⟨t, more, rfl, ht⟩ := (hitems first (by simp)).starts ts hts
        exact ⟨t, more ++ vs, rfl, ht⟩
    obtain ⟨t, more, rfl, ht⟩ := hstart
    rw [if_neg (by simpa using ht)]
    exact leads_separatedAtFuel hclose first rest hitems rounds 0 _ hspells hrounds hrounds hlen

/-! ## Calls and properties -/

/-- A literal is read from its own token. -/
theorem passes_primary_literal {inner : Rules} {value : Literal} {t : Token} {ts : List Token}
    (h : t.kind = value.kind) : Passes (primary inner) (t :: ts) ts (.literal value t.line) := by
  obtain ⟨kind, lexeme, line⟩ := t
  cases h
  intro endLine problems
  cases value with
  | boolean b => cases b <;> rfl
  | _ => rfl

/-- A name is read from its own token. -/
theorem passes_primary_reference {inner : Rules} {name : Name} {t : Token} {ts : List Token}
    (h : (Mark.name name).Admits t) : Passes (primary inner) (t :: ts) ts (.reference name) := by
  obtain ⟨kind, lexeme, line⟩ := t
  obtain ⟨rfl, rfl, rfl⟩ := h
  exact fun _ _ => rfl

/-- The receiver is read from its own word. -/
theorem passes_primary_this {inner : Rules} {t : Token} {ts : List Token}
    (h : t.kind = .keyword .thisWord) : Passes (primary inner) (t :: ts) ts (.this t.line) := by
  obtain ⟨kind, lexeme, line⟩ := t
  cases h
  exact fun _ _ => rfl

/-- An expression in parentheses is read as a group. -/
theorem leads_primary_group {inner : Rules} [inner.Grow] {p : Prop} {e : Expr} {t close : Token}
    {ts us : List Token} (h : t.kind = .symbol .leftParen)
    (hclose : close.kind = .symbol .rightParen)
    (he : Leads p inner.expression ts (close :: us) (pure e)) :
    Leads p (primary inner) (t :: ts) us (pure (.group e)) := by
  obtain ⟨kind, lexeme, line⟩ := t
  cases h
  have hbehind : Leads p (do
        advance
        let e ← inner.expression
        let _ ← expect (.symbol .rightParen) .groupClose
        return Expr.group e) (⟨.symbol .leftParen, lexeme, line⟩ :: ts) us (pure (.group e)) :=
    passes_advance.leads (he.bind.passes ((passes_expect hclose).bind passes_pure))
  exact hbehind.of_eq fun _ _ => rfl

/-- Behind a primary expression, all rounds are left for calls and properties. -/
theorem AccessAt.of_primary {e : Expr} (h : ∀ (levels rounds : Nat) (ts us : List Token),
      Spells e.spelling ts → (ts ++ us).length < rounds →
      Leads (e.nesting ≤ levels) (primary (Rules.atLevels rounds levels)) (ts ++ us) us (pure e)) :
    AccessAt e := by
  intro levels rounds ts us hspells hlen
  have hprimary := h levels rounds ts us hspells hlen
  refine ⟨rounds, ?_, ?_⟩
  · rw [List.length_append] at hlen
    omega
  · unfold call
    rw [Rules.rounds_atLevels]
    exact hprimary.bind

/-- An object that is read can be followed by a property. -/
theorem AccessAt.get {object : Expr} {property : Name} (h : AccessAt object) :
    AccessAt (.get object property) := by
  intro levels rounds ts us hspells hlen
  obtain ⟨ts, vs, rfl, hts, hvs⟩ := spells_append.1 hspells
  obtain ⟨dot, ws, rfl, hdot, hws⟩ := hvs.exists_cons (by simp)
  obtain ⟨name, rfl, hname⟩ := hws.exists_singleton (by simp)
  rw [List.append_assoc, List.cons_append, List.cons_append, List.nil_append] at hlen ⊢
  obtain ⟨fuel, hfuel, hleads⟩ := h levels rounds ts _ hts hlen
  obtain ⟨fuel, rfl⟩ : ∃ n, fuel = n + 1 := ⟨fuel - 1, by omega⟩
  simp only [List.length_cons] at hfuel
  refine ⟨fuel, by omega, ?_⟩
  have hnoparen : ∀ t ∈ (dot :: name :: us).head?, t.kind ≠ .symbol .leftParen := by
    intro t ht
    cases ht
    rw [hdot]
    nofun
  have hround : Leads True (accessesAtFuel (Rules.atLevels rounds levels) (fuel + 1) object)
      (dot :: name :: us) us
      (accessesAtFuel (Rules.atLevels rounds levels) fuel (.get object property)) :=
    (passes_accept_false hnoparen).leads ((passes_accept_true hdot).leads
      ((passes_expectName hname).leads .refl))
  exact (hleads.trans hround).congr (by rw [and_true, Expr.nesting])

/-- Arguments are expressions in positions of their own. -/
theorem itemAt_argument {levels rounds : Nat} {e : Expr} (h : ReadAt 0 e)
    (hwf : e.wellFormed = true) :
    ItemAt (Rules.atLevels rounds levels).expression (e.nesting + 1 ≤ levels) rounds e.spelling
      e where
  leads ts us hspells hlen hnext := by
    refine h.leads_expression hspells hlen fun t ht => ?_
    rcases hnext t ht with hkind | hkind
    · rw [hkind]
      rfl
    · rw [hkind]
      rfl
  starts ts hspells := by
    obtain ⟨t, rest, hts, hstart, -⟩ := exists_cons_of_spells_expr e hwf hspells
    refine ⟨t, rest, hts, fun hkind => ?_⟩
    rw [hkind] at hstart
    cases hstart

/-- Arguments fit into the levels if each of them fits one level further in. -/
theorem listNesting_le_iff {es : List Expr} {levels : Nat} :
    Expr.listNesting es ≤ levels ↔ ∀ e ∈ es, e.nesting + 1 ≤ levels := by
  induction es with
  | nil => simp [Expr.listNesting]
  | cons e rest ih => rw [Expr.listNesting, Nat.max_le, ih, List.forall_mem_cons]

/-- A callee that is read can be followed by its arguments. -/
theorem AccessAt.call {callee : Expr} {arguments : List Expr} {line : Nat} (h : AccessAt callee)
    (hargs : ∀ e ∈ arguments, ReadAt 0 e ∧ e.wellFormed = true)
    (harity : arguments.length ≤ maxArity) : AccessAt (.call callee arguments line) := by
  intro levels rounds ts us hspells hlen
  rw [Expr.spelling, Expr.listSpelling_eq_map, List.append_assoc, List.cons_append] at hspells
  obtain ⟨ts, vs, rfl, hts, hvs⟩ := spells_append.1 hspells
  obtain ⟨paren, ws, rfl, hparen, hbehind⟩ := hvs.exists_cons (by simp)
  obtain ⟨ws, xs, rfl, hws, hxs⟩ := spells_append.1 hbehind
  obtain ⟨close, rfl, hclose, rfl⟩ := hxs.exists_singleton (by simp)
  simp only [List.append_assoc, List.cons_append, List.nil_append] at hlen ⊢
  obtain ⟨fuel, hfuel, hleads⟩ := h levels rounds ts _ hts hlen
  obtain ⟨fuel, rfl⟩ : ∃ n, fuel = n + 1 := ⟨fuel - 1, by omega⟩
  simp only [List.length_append, List.length_cons] at hlen hfuel
  refine ⟨fuel, by omega, ?_⟩
  have harguments : Leads (∀ e ∈ arguments, e.nesting + 1 ≤ levels)
      (separated rounds (Rules.atLevels rounds levels).expression .tooManyArguments)
      (ws ++ close :: us) (close :: us) (pure arguments) :=
    leads_separated hclose (fun e he => itemAt_argument (hargs e he).1 (hargs e he).2) hws
      (by simp only [List.length_append, List.length_cons]; omega) harity
  have hround : Leads (∀ e ∈ arguments, e.nesting + 1 ≤ levels)
      (accessesAtFuel (Rules.atLevels rounds levels) (fuel + 1) callee)
      (paren :: (ws ++ close :: us)) us
      (accessesAtFuel (Rules.atLevels rounds levels) fuel (.call callee arguments close.line)) := by
    refine (passes_accept_true hparen).leads ?_
    rw [if_pos rfl, Rules.rounds_atLevels]
    exact (harguments.bind.trans ((passes_expect hclose).leads .refl)).congr (by rw [and_true])
  exact (hleads.trans hround).congr (by rw [Expr.nesting, Nat.max_le, listNesting_le_iff])

/-! ## All expressions -/

/-- The rules read the expression wherever its tier lets it stand, and the loops come to it. -/
structure Complete (e : Expr) : Prop where
  readAt : ∀ tier ≤ e.tier, ReadAt tier e
  spineAt : ∀ tier, 1 ≤ tier → tier ≤ 4 → tier ≤ e.tier → SpineAt tier e
  accessAt : e.tier = 6 → AccessAt e

/-- A chain of accesses is read at its own tier and at all lower ones. -/
theorem Complete.of_accessAt {e : Expr} (hwf : e.wellFormed = true) (htier : e.tier = 6)
    (h : AccessAt e) : Complete e := by
  have hfive : ReadAt 5 e := h.readAt.loosen_call hwf htier
  refine ⟨fun tier hle => ?_, fun tier _ hle _ => ?_, fun _ => h⟩
  · rcases Nat.lt_or_ge 5 tier with hlt | hge
    · obtain rfl : tier = 6 := by omega
      exact h.readAt
    · exact hfive.loosen_le (Nat.le_refl _) hge
  · exact .of_readAt (hfive.loosen_le (Nat.le_refl _) (by omega))

/-- An expression outside of the chains is read at all the tiers up to its own. -/
theorem Complete.of_readAt {e : Expr} {tier : Nat} (htier : e.tier = tier)
    (hends : tier = 0 ∨ tier = 5) (h : ReadAt tier e) : Complete e := by
  subst htier
  refine ⟨fun low hle => h.loosen_le (by omega) hle, fun low hlow hhigh hle => ?_, by omega⟩
  exact .of_readAt (h.loosen_le (by omega) (by omega))

/-- A chain of operators is read at its own tier and at all lower ones. -/
theorem Complete.of_spineAt {e : Expr} {tier : Nat} (htier : e.tier = tier) (hlow : 1 ≤ tier)
    (hhigh : tier ≤ 4) (h : SpineAt tier e) : Complete e := by
  subst htier
  have hread := h.readAt hlow hhigh
  refine ⟨fun low hle => hread.loosen_le (by omega) hle, fun low hlow _ hle => ?_, by omega⟩
  rcases Nat.lt_or_ge low e.tier with hlt | hge
  · exact .of_readAt (hread.loosen_le (by omega) hlt)
  · obtain rfl := Nat.le_antisymm hle hge
    exact h

/-- A property of an object is read if the object is. -/
theorem Complete.get {object : Expr} {property : Name} (htier : object.tier = 6)
    (hwf : object.wellFormed = true) (h : Complete object) : Complete (.get object property) :=
  .of_accessAt (by simp [Expr.wellFormed, htier, hwf]) rfl (h.accessAt htier).get

/-- A name is read at every tier. -/
theorem complete_reference (name : Name) : Complete (.reference name) := by
  refine .of_accessAt rfl rfl (.of_primary fun levels rounds ts us hspells _ => ?_)
  obtain ⟨t, rfl, ht⟩ := hspells.exists_singleton (by simp)
  exact (passes_primary_reference ht).leads_pure.congr (by simp [Expr.nesting])

/-- An assignment: its left side is read like any other expression, up to the sign. -/
theorem readAt_assignment {target value e : Expr} (htarget : ReadAt 1 target)
    (hvalue : ReadAt 0 value) (he : assignmentTo? target value = some e)
    (hspelling : e.spelling = target.spelling ++ .symbol .equal :: value.spelling)
    (hnesting : e.nesting = max target.nesting (value.nesting + 1)) : ReadAt 0 e := by
  intro levels rounds ts us hspells hlen hfollows
  rw [hspelling] at hspells
  obtain ⟨ts, vs, rfl, hts, hvs⟩ := spells_append.1 hspells
  obtain ⟨equal, ws, rfl, hequal, hws⟩ := hvs.exists_cons (by simp)
  rw [List.append_assoc, List.cons_append] at hlen ⊢
  have hsign : Follows 1 (equal :: (ws ++ us)) := follows_cons.2 (by rw [hequal]; rfl)
  have hleft := htarget levels rounds ts _ hts hlen hsign
  simp only [List.length_append, List.length_cons] at hlen
  have hbehind : (ws ++ us).length < rounds := by
    rw [List.length_append]
    omega
  have hread : Leads (value.nesting + 1 ≤ levels) (Rules.atLevels rounds levels).expression
      (ws ++ us) us (pure value) := hvalue.leads_expression hws hbehind hfollows
  have htest : (equal.kind == .symbol .equal) = true := beq_iff_eq.2 hequal
  refine ((hleft.bind_of fun left => Grows.bind (grows_assignmentBehind _ left)).trans
    ((passes_acceptIf?_some htest).leads ((hread.bind_of fun value => ?_).passes ?_))).congr ?_
  · split
    · infer_instance
    · infer_instance
  · rw [he]
    exact passes_pure
  · rw [hnesting, Nat.max_le]

/-- An assignment is read if its value is. -/
theorem Complete.assign {name : Name} {value : Expr} (h : Complete value) :
    Complete (.assign name value) := by
  have htarget : ReadAt 1 (.reference name) :=
    (complete_reference name).readAt 1 (by simp [Expr.tier])
  exact .of_readAt rfl (.inl rfl) (readAt_assignment htarget (h.readAt 0 (Nat.zero_le _)) rfl rfl
    (by simp [Expr.nesting]))

/-- An assignment to a property is read if the object and the value are. -/
theorem Complete.set {object : Expr} {property : Name} {value : Expr} (htier : object.tier = 6)
    (hwf : object.wellFormed = true) (hobject : Complete object) (hvalue : Complete value) :
    Complete (.set object property value) := by
  have htarget : ReadAt 1 (.get object property) :=
    (hobject.get htier hwf).readAt 1 (by simp [Expr.tier])
  exact .of_readAt rfl (.inl rfl) (readAt_assignment htarget (hvalue.readAt 0 (Nat.zero_le _)) rfl
    (by simp [Expr.spelling]) rfl)

/-- A group is read if the expression inside is. -/
theorem Complete.group {inner : Expr} (hwf : inner.wellFormed = true) (h : Complete inner) :
    Complete (.group inner) := by
  refine .of_accessAt hwf rfl (.of_primary fun levels rounds ts us hspells hlen => ?_)
  obtain ⟨paren, ts, rfl, hparen, hbehind⟩ := hspells.exists_cons (by simp)
  obtain ⟨ts, vs, rfl, hts, hvs⟩ := spells_append.1 hbehind
  obtain ⟨close, rfl, hclose⟩ := hvs.exists_singleton (by simp)
  simp only [List.append_assoc, List.cons_append, List.nil_append, List.length_cons] at hlen ⊢
  have hfollows : Follows 0 (close :: us) := follows_cons.2 (by rw [hclose]; rfl)
  exact leads_primary_group hparen hclose
    ((h.readAt 0 (Nat.zero_le _)).leads_expression hts (by omega) hfollows)

/-- A unary operator is read if its operand is. -/
theorem Complete.unary {operator : Token} {operand : Expr} (htier : 5 ≤ operand.tier)
    (hoperator : isUnaryOperator operator.kind = true) (h : Complete operand) :
    Complete (.unary operator operand) := by
  have hread : ReadAt 5 (.unary operator operand) := by
    intro levels rounds ts us hspells hlen hfollows
    obtain ⟨t, ts, rfl, rfl, hts⟩ := hspells.exists_cons (by simp)
    rw [List.cons_append, List.length_cons] at hlen
    have hoperand : Leads (operand.nesting + 1 ≤ levels) (Rules.atLevels rounds levels).unary
        (ts ++ us) us (pure operand) :=
      (h.readAt 5 htier).leads_unary hts (Nat.lt_of_succ_lt hlen) hfollows
    exact (passes_acceptIf?_some hoperator).leads (hoperand.bind.passes passes_pure)
  exact .of_readAt rfl (.inr rfl) hread

/-- An operator between operands is read if the operands are, each at a tier that it may have. -/
theorem Complete.binary {left right : Expr} {operator : Token} {tier : Nat}
    (htier : operator.kind.tier? = some tier) (hlow : 1 ≤ tier) (hleft : tier ≤ left.tier)
    (hright : tier < right.tier) (hl : Complete left) (hr : Complete right) :
    Complete (.binary left operator right) := by
  have hhigh : tier ≤ 4 := Kind.tier?_le htier
  have hat : (Expr.binary left operator right).tier = tier := by rw [Expr.tier, htier]; rfl
  exact .of_spineAt hat hlow hhigh
    (.binary htier (hl.spineAt tier hlow hhigh hleft) (hr.readAt (tier + 1) hright))

/-- The recursion follows the tree: what its parts are read as makes it read. -/
theorem complete_of_wellFormed : (e : Expr) → e.wellFormed = true → Complete e
  | .literal value line, hwf => by
    refine .of_accessAt hwf rfl (.of_primary fun levels rounds ts us hspells _ => ?_)
    obtain ⟨t, rfl, hkind, rfl⟩ := hspells.exists_singleton (by simp)
    exact (passes_primary_literal hkind).leads_pure.congr (by simp [Expr.nesting])
  | .this line, hwf => by
    refine .of_accessAt hwf rfl (.of_primary fun levels rounds ts us hspells _ => ?_)
    obtain ⟨t, rfl, hkind, rfl⟩ := hspells.exists_singleton (by simp)
    exact (passes_primary_this hkind).leads_pure.congr (by simp [Expr.nesting])
  | .reference name, _ => complete_reference name
  | .group inner, hwf => .group hwf (complete_of_wellFormed inner hwf)
  | .assign name value, hwf => .assign (complete_of_wellFormed value hwf)
  | .unary operator operand, hwf => by
    simp only [Expr.wellFormed, Bool.and_eq_true, Bool.or_eq_true, beq_iff_eq,
      decide_eq_true_eq] at hwf
    exact .unary hwf.1.2 (isUnaryOperator_iff.2 hwf.1.1) (complete_of_wellFormed operand hwf.2)
  | .binary left operator right, hwf => by
    obtain ⟨tier, htier, hleft, hright, hwfl, hwfr⟩ := Expr.wellFormed_binary hwf
    exact .binary htier (Kind.one_le_of_tier? htier) hleft hright
      (complete_of_wellFormed left hwfl) (complete_of_wellFormed right hwfr)
  | .get object property, hwf => by
    simp only [Expr.wellFormed, Bool.and_eq_true, beq_iff_eq] at hwf
    exact .get hwf.1 hwf.2 (complete_of_wellFormed object hwf.2)
  | .set object property value, hwf => by
    simp only [Expr.wellFormed, Bool.and_eq_true, beq_iff_eq] at hwf
    exact .set hwf.1.1 hwf.1.2 (complete_of_wellFormed object hwf.1.2)
      (complete_of_wellFormed value hwf.2)
  | .call callee arguments line, hwf => by
    have hcall := hwf
    simp only [Expr.wellFormed, Bool.and_eq_true, beq_iff_eq, decide_eq_true_eq,
      Expr.listWellFormed_iff] at hwf
    obtain ⟨⟨⟨htier, hwfc⟩, harity⟩, hwfs⟩ := hwf
    have hargs : ∀ e ∈ arguments, ReadAt 0 e ∧ e.wellFormed = true := fun e he =>
      ⟨(complete_of_wellFormed e (hwfs e he)).readAt 0 (Nat.zero_le _), hwfs e he⟩
    exact .of_accessAt hcall rfl
      (((complete_of_wellFormed callee hwfc).accessAt htier).call hargs harity)

/-- Every well-formed expression is read in a position of its own. -/
theorem leads_expression {e : Expr} (hwf : e.wellFormed = true) {levels rounds : Nat}
    {ts us : List Token} (hspells : Spells e.spelling ts) (hlen : (ts ++ us).length < rounds)
    (hfollows : Follows 0 us) :
    Leads (e.nesting + 1 ≤ levels) (Rules.atLevels rounds levels).expression (ts ++ us) us
      (pure e) :=
  ((complete_of_wellFormed e hwf).readAt 0 (Nat.zero_le _)).leads_expression hspells hlen hfollows

end Grammar

end Quill
