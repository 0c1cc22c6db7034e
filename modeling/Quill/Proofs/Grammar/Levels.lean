import Quill.Proofs.Grammar.Progress

/-!
# Levels that are open and levels that are left

The grammar counts the levels that are open and refuses one too many, over rules whose recursion is
written out. What it does can be said more simply with the levels that are left: `Rules.atLevels` is
a table for each number of them, and none of its rules looks at the count.

`Agree open n x y` says that `x`, read with `open` levels open, does on fewer than `n` tokens what
`y` does. It goes along the rules of the grammar and meets only two things that differ: the level
that a rule opens (`agree_nested`), and the bounds of repetitions, which are never reached
(`agree_passesAtFuel` and the other repetitions). So rules that are written out often enough agree
with those of `atLevels`, whatever there is below (`Rules.agree_unfolded`), and reading a program is
reading it with the table for `maxNesting` levels (`Cursor.readWith_eq`).
-/

namespace Quill

namespace Cursor

/-- The cursor with another number of levels open. -/
def withDepth (c : Cursor) (depth : Nat) : Cursor := { c with depth := depth }

variable (c : Cursor) (depth : Nat)

@[simp] theorem depth_withDepth : (c.withDepth depth).depth = depth := rfl

@[simp] theorem upcoming_withDepth : (c.withDepth depth).upcoming = c.upcoming := rfl

@[simp] theorem problems_withDepth : (c.withDepth depth).problems = c.problems := rfl

@[simp] theorem current?_withDepth : (c.withDepth depth).current? = c.current? := rfl

/-- The levels that are open already change nothing. -/
theorem withDepth_self : c.withDepth c.depth = c := rfl

/-- Moving past a token does not look at the levels. -/
theorem advance_withDepth : (c.withDepth depth).advance = c.advance.withDepth depth := by
  unfold advance
  rw [upcoming_withDepth]
  cases c.upcoming with
  | nil => rfl
  | cons t rest => rfl

/-- Skipping to a boundary does not look at the levels. -/
theorem recover_withDepth :
    Grammar.recover (c.withDepth depth) = (Grammar.recover c).withDepth depth := by
  unfold Grammar.recover
  rw [upcoming_withDepth]
  cases c.upcoming with
  | nil => rfl
  | cons t rest => rfl

end Cursor

namespace Parse

variable {α β : Type} {depth n : Nat}

/-- What a rule has come to, with another number of levels open. -/
def resultWithDepth (depth : Nat) :
    EStateM.Result GrammarFault Cursor α → EStateM.Result GrammarFault Cursor α
  | .ok a c => .ok a (c.withDepth depth)
  | .error fault c => .error fault (c.withDepth depth)

/-! ## Agreement of rules -/

/-- From the cursor, if fewer than `n` tokens are left, the first rule with so many levels open does
what the second one does, and leaves no more tokens. -/
def AgreeFrom (depth n : Nat) (c : Cursor) (x y : Parse α) : Prop :=
  c.upcoming.length < n → x (c.withDepth depth) = resultWithDepth depth (y c)
    ∧ (ending (y c)).upcoming.length ≤ c.upcoming.length

/-- On fewer than `n` tokens the first rule with so many levels open does what the second one does,
and leaves no more tokens. -/
def Agree (depth n : Nat) (x y : Parse α) : Prop :=
  ∀ c : Cursor, AgreeFrom depth n c x y

/-- What agrees on fewer tokens than a bound does so for every lower bound. -/
theorem Agree.mono {m : Nat} {x y : Parse α} (h : Agree depth n x y) (hle : m ≤ n) :
    Agree depth m x y :=
  fun c hlen => h c (Nat.lt_of_lt_of_le hlen hle)

/-- On fewer than no tokens all rules agree. -/
theorem agree_zero {x y : Parse α} : Agree depth 0 x y :=
  fun _ hlen => absurd hlen (Nat.not_lt_zero _)

/-- Yielding a value agrees with itself at every level. -/
theorem agree_pure (a : α) : Agree depth n (pure a) (pure a) :=
  fun _ _ => ⟨rfl, Nat.le_refl _⟩

/-- Raising a fault agrees with itself at every level. -/
theorem agree_throw (fault : GrammarFault) : Agree depth n (throw fault : Parse α) (throw fault) :=
  fun _ _ => ⟨rfl, Nat.le_refl _⟩

/-- Failing at the next token agrees with itself at every level. -/
theorem agree_failAt (cause : Option String → GrammarCause) :
    Agree depth n (failAt cause : Parse α) (failAt cause) :=
  fun _ _ => ⟨rfl, Nat.le_refl _⟩

/-- Failing with a cause agrees with itself at every level. -/
theorem agree_failWith (cause : GrammarCause) :
    Agree depth n (failWith cause : Parse α) (failWith cause) :=
  fun _ _ => ⟨rfl, Nat.le_refl _⟩

/-- Moving past a token agrees with itself at every level. -/
theorem agree_advance : Agree depth n advance advance := by
  intro c _
  have hlen : c.advance.upcoming.length ≤ c.upcoming.length := by
    rw [Cursor.upcoming_advance, List.length_tail]
    exact Nat.sub_le _ _
  refine ⟨?_, hlen⟩
  show EStateM.Result.ok () (c.withDepth depth).advance = .ok () (c.advance.withDepth depth)
  rw [Cursor.advance_withDepth]

/-- Rules one after another agree if each of them does. -/
theorem Agree.bind {x y : Parse α} {f g : α → Parse β} (hx : Agree depth n x y)
    (hf : ∀ a, Agree depth n (f a) (g a)) : Agree depth n (x >>= f) (y >>= g) := by
  intro c hlen
  obtain ⟨heq, hle⟩ := hx c hlen
  cases hy : y c with
  | error fault c' =>
    rw [hy] at heq hle
    rw [bind_eq_of_error heq, bind_eq_of_error hy]
    exact ⟨rfl, hle⟩
  | ok a c' =>
    rw [hy] at heq hle
    obtain ⟨heq', hle'⟩ := hf a c' (Nat.lt_of_le_of_lt hle hlen)
    rw [bind_eq_of_ok heq, bind_eq_of_ok hy]
    exact ⟨heq', Nat.le_trans hle' hle⟩

/-- What is done with the cursor agrees if it does from every one of them. -/
theorem agree_bind_get {f g : Cursor → Parse β}
    (h : ∀ c, AgreeFrom depth n c (f (c.withDepth depth)) (g c)) :
    Agree depth n (get >>= f) (get >>= g) :=
  fun c hlen => h c hlen

/-- Taking a token that passes a test does not look at the levels. -/
theorem acceptIf?_withDepth (depth : Nat) (test : Kind → Bool) (c : Cursor) :
    acceptIf? test (c.withDepth depth) = resultWithDepth depth (acceptIf? test c) := by
  rw [acceptIf?_eq, acceptIf?_eq, Cursor.current?_withDepth, Cursor.advance_withDepth]
  cases c.current? with
  | none => rfl
  | some t =>
    dsimp only
    split
    · rfl
    · rfl

/-- Once a token has been accepted, one token less is left. -/
theorem agree_bind_acceptIf? (test : Kind → Bool) {f g : Option Token → Parse β}
    (hsome : ∀ t, Agree depth (n - 1) (f (some t)) (g (some t)))
    (hnone : Agree depth n (f none) (g none)) :
    Agree depth n (acceptIf? test >>= f) (acceptIf? test >>= g) := by
  intro c hlen
  have hdepth := acceptIf?_withDepth depth test c
  obtain haccept | ⟨t, haccept, hshort⟩ := acceptIf?_passes test c
  · rw [haccept] at hdepth
    rw [bind_eq_of_ok hdepth, bind_eq_of_ok haccept]
    exact hnone c hlen
  · rw [haccept] at hdepth
    rw [bind_eq_of_ok hdepth, bind_eq_of_ok haccept]
    obtain ⟨heq, hle⟩ := hsome t c.advance (by omega)
    exact ⟨heq, by omega⟩

/-- Where a token is accepted, one fewer is left for the rule behind it. -/
theorem agree_accept_ite (kind : Kind) {x x' y y' : Parse β} (hx : Agree depth (n - 1) x x')
    (hy : Agree depth n y y') :
    Agree depth n (do if ← accept kind then x else y) (do if ← accept kind then x' else y') := by
  rw [bind_accept, bind_accept]
  exact agree_bind_acceptIf? _ (fun _ => hx) hy

/-- Expecting a token agrees with itself at every level. -/
theorem agree_expect (kind : Kind) (what : Expectation) :
    Agree depth n (expect kind what) (expect kind what) :=
  agree_bind_acceptIf? _ (fun _ => agree_pure _) (agree_failAt _)

/-- Expecting a name agrees with itself at every level. -/
theorem agree_expectName (what : Expectation) :
    Agree depth n (expectName what) (expectName what) :=
  (agree_expect _ _).bind fun _ => agree_pure _

/-- What is done after a look at the next token agrees if it does either way. -/
theorem agree_bind_sees (kind : Kind) {f g : Bool → Parse β}
    (h : ∀ seen, Agree depth n (f seen) (g seen)) :
    Agree depth n (sees kind >>= f) (sees kind >>= g) :=
  fun c hlen => h (c.current?.map Token.kind == some kind) c hlen

/-- A choice that does not depend on the cursor agrees if both sides do. -/
theorem agree_ite {p : Prop} [Decidable p] {x x' y y' : Parse α} (hx : Agree depth n x x')
    (hy : Agree depth n y y') : Agree depth n (if p then x else y) (if p then x' else y') := by
  split
  · exact hx
  · exact hy

/-- The test looks at the tokens that are left and at nothing else, and it holds at the end. -/
def StopsAtEnd (stop : Parse Bool) : Prop :=
  ∃ test : List Lexed → Bool, (∀ c, stop c = .ok (test c.upcoming) c) ∧ test [] = true

/-- Asking for the end stops at it. -/
theorem stopsAtEnd_atEnd : StopsAtEnd atEnd :=
  ⟨List.isEmpty, fun _ => rfl, rfl⟩

/-- A block stops at the end if its brace is missing. -/
theorem stopsAtEnd_blockEnds : StopsAtEnd Grammar.blockEnds :=
  ⟨fun upcoming => (upcoming.head?.map Lexed.token).map Token.kind == some (.symbol .rightBrace)
    || upcoming.isEmpty, fun _ => rfl, rfl⟩

end Parse

/-! ## Agreement of tables -/

/-- On fewer than `n` tokens the rules of the first table with so many levels open do what those of
the second one do, and neither runs out of rounds. -/
structure Rules.Agree (depth n : Nat) (x y : Rules) : Prop where
  rounds : n ≤ x.rounds
  rounds' : n ≤ y.rounds
  statement : Parse.Agree depth n x.statement y.statement
  function : Parse.Agree depth n x.function y.function
  expression : Parse.Agree depth n x.expression y.expression
  unary : Parse.Agree depth n x.unary y.unary

/-- Tables of rules that agree do so for one token fewer. -/
theorem Rules.Agree.pred {depth n : Nat} {x y : Rules} (h : x.Agree depth n y) :
    x.Agree depth (n - 1) y where
  rounds := Nat.le_trans (Nat.sub_le _ _) h.rounds
  rounds' := Nat.le_trans (Nat.sub_le _ _) h.rounds'
  statement := h.statement.mono (Nat.sub_le _ _)
  function := h.function.mono (Nat.sub_le _ _)
  expression := h.expression.mono (Nat.sub_le _ _)
  unary := h.unary.mono (Nat.sub_le _ _)

namespace Grammar

open Parse

variable {α : Type} {depth n : Nat} {x y : Rules}

/-! ### Expressions -/

/-- Lists of items agree for all bounds on their repetitions that are large enough. -/
theorem agree_separatedAtFuel {item item' : Parse α} (hitem : Agree depth n item item')
    (tooMany : GrammarCause) {fuel fuel' : Nat} (hfuel : n ≤ fuel) (hfuel' : n ≤ fuel')
    (count : Nat) :
    Agree depth n (separatedAtFuel item tooMany fuel count)
      (separatedAtFuel item' tooMany fuel' count) := by
  induction fuel generalizing n fuel' count with
  | zero =>
    rw [Nat.le_zero.1 hfuel]
    exact agree_zero
  | succ fuel ih =>
    cases fuel' with
    | zero =>
      rw [Nat.le_zero.1 hfuel']
      exact agree_zero
    | succ fuel' =>
      refine agree_ite (agree_failWith _) (hitem.bind fun first => ?_)
      refine agree_accept_ite _ ?_ (agree_pure _)
      have hrest := ih (hitem.mono (Nat.sub_le n 1)) (Nat.sub_le_of_le_add hfuel)
        (Nat.sub_le_of_le_add hfuel') (count + 1)
      exact hrest.bind fun rest => agree_pure _

/-- Lists of items that may be empty agree too. -/
theorem agree_separated {item item' : Parse α} (hitem : Agree depth n item item')
    (tooMany : GrammarCause) {rounds rounds' : Nat} (hrounds : n ≤ rounds)
    (hrounds' : n ≤ rounds') :
    Agree depth n (separated rounds item tooMany) (separated rounds' item' tooMany) :=
  agree_bind_sees _ fun _ =>
    agree_ite (agree_pure _) (agree_separatedAtFuel hitem tooMany hrounds hrounds' 0)

/-- Primary expressions agree if the rules inside do. -/
theorem agree_primary (h : x.Agree depth n y) : Agree depth n (primary x) (primary y) := by
  refine agree_bind_get fun c => ?_
  rw [Cursor.current?_withDepth]
  cases c.current? with
  | none => exact agree_failAt _ c
  | some t =>
    dsimp only
    split
    · exact (agree_advance.bind fun _ => agree_pure _) c
    · split
      · exact (agree_advance.bind fun _ => agree_pure _) c
      · exact (agree_advance.bind fun _ => agree_pure _) c
      · refine (agree_advance.bind fun _ => h.expression.bind fun e => ?_) c
        exact (agree_expect _ _).bind fun _ => agree_pure _
      · exact agree_failAt _ c

/-- Chains of accesses agree for all bounds on their repetitions that are large enough. -/
theorem agree_accessesAtFuel (h : x.Agree depth n y) {fuel fuel' : Nat} (hfuel : n ≤ fuel)
    (hfuel' : n ≤ fuel') (e : Expr) :
    Agree depth n (accessesAtFuel x fuel e) (accessesAtFuel y fuel' e) := by
  induction fuel generalizing n fuel' e with
  | zero =>
    rw [Nat.le_zero.1 hfuel]
    exact agree_zero
  | succ fuel ih =>
    cases fuel' with
    | zero =>
      rw [Nat.le_zero.1 hfuel']
      exact agree_zero
    | succ fuel' =>
      have hrest := ih h.pred (Nat.sub_le_of_le_add hfuel) (Nat.sub_le_of_le_add hfuel')
      refine agree_accept_ite _ ?_ (agree_accept_ite _ ?_ (agree_pure _))
      · refine (agree_separated h.pred.expression _ h.pred.rounds h.pred.rounds').bind ?_
        exact fun arguments => (agree_expect _ _).bind fun close => hrest _
      · exact (agree_expectName _).bind fun property => hrest _

/-- Calls and properties agree if the rules inside do. -/
theorem agree_call (h : x.Agree depth n y) : Agree depth n (call x) (call y) :=
  (agree_primary h).bind fun _ => agree_accessesAtFuel h h.rounds h.rounds' _

/-- Operators before an operand agree if the rules inside do. -/
theorem agree_unary (h : x.Agree depth n y) : Agree depth n (unary x) (unary y) :=
  agree_bind_acceptIf? _ (fun _ => h.pred.unary.bind fun _ => agree_pure _) (agree_call h)

/-- Chains of operators agree for all bounds on their repetitions that are large enough. -/
theorem agree_chainAtFuel (isOperator : Kind → Bool) {operand operand' : Parse Expr}
    (h : Agree depth n operand operand') {fuel fuel' : Nat} (hfuel : n ≤ fuel) (hfuel' : n ≤ fuel')
    (left : Expr) :
    Agree depth n (chainAtFuel isOperator operand fuel left)
      (chainAtFuel isOperator operand' fuel' left) := by
  induction fuel generalizing n fuel' left with
  | zero =>
    rw [Nat.le_zero.1 hfuel]
    exact agree_zero
  | succ fuel ih =>
    cases fuel' with
    | zero =>
      rw [Nat.le_zero.1 hfuel']
      exact agree_zero
    | succ fuel' =>
      have hpred := h.mono (Nat.sub_le n 1)
      refine agree_bind_acceptIf? _ (fun operator => hpred.bind fun right => ?_) (agree_pure _)
      exact ih hpred (Nat.sub_le_of_le_add hfuel) (Nat.sub_le_of_le_add hfuel') _

/-- Chains of operators agree if their operands do. -/
theorem agree_chain (isOperator : Kind → Bool) {operand operand' : Parse Expr}
    (h : Agree depth n operand operand') {rounds rounds' : Nat} (hrounds : n ≤ rounds)
    (hrounds' : n ≤ rounds') :
    Agree depth n (chain rounds isOperator operand) (chain rounds' isOperator operand') :=
  h.bind fun _ => agree_chainAtFuel isOperator h hrounds hrounds' _

/-- The tiers of operators agree if the rules inside do. -/
theorem agree_equality (h : x.Agree depth n y) : Agree depth n (equality x) (equality y) := by
  have hfactor := agree_chain isFactorOperator (agree_unary h) h.rounds h.rounds'
  have hterm := agree_chain isTermOperator hfactor h.rounds h.rounds'
  have hcomparison := agree_chain isComparisonOperator hterm h.rounds h.rounds'
  exact agree_chain isEqualityOperator hcomparison h.rounds h.rounds'

/-- Expressions agree if the rules inside do. -/
theorem agree_expression (h : x.Agree depth n y) : Agree depth n (expression x) (expression y) := by
  refine (agree_equality h).bind fun left => agree_bind_acceptIf? _ (fun equal => ?_) (agree_pure _)
  refine h.pred.expression.bind fun value => ?_
  split
  · exact agree_pure _
  · exact agree_throw _

/-! ### Repetitions with recovery -/

/-- A rule that is recovered from agrees if the rule does. -/
theorem agree_recovering {rule rule' : Parse α} (h : Agree depth n rule rule') :
    Agree depth n (recovering rule) (recovering rule') := by
  intro c hlen
  obtain ⟨heq, hle⟩ := h c hlen
  unfold recovering
  rw [heq]
  cases hrule : rule' c with
  | ok a c' =>
    rw [hrule] at hle
    exact ⟨rfl, hle⟩
  | error fault c' =>
    rw [hrule, ending_error] at hle
    have hrecover := (c'.recordFault fault).length_recover
    rw [Cursor.upcoming_recordFault] at hrecover
    refine ⟨?_, ?_⟩
    · show EStateM.Result.ok none (recover ((c'.recordFault fault).withDepth depth)) = _
      rw [Cursor.recover_withDepth]
      rfl
    · rw [ending_ok]
      omega

/-- Repetitions agree if their passes do, since each pass leaves fewer tokens. -/
theorem agree_passesAtFuel {stop : Parse Bool} (hstop : StopsAtEnd stop)
    {pass pass' : Parse (Option α)} (hpass : Agree depth n pass pass') (hshortens : Shortens pass')
    {fuel fuel' : Nat} (hfuel : n ≤ fuel) (hfuel' : n ≤ fuel') :
    Agree depth n (passesAtFuel stop pass fuel) (passesAtFuel stop pass' fuel') := by
  induction fuel generalizing n fuel' with
  | zero =>
    rw [Nat.le_zero.1 hfuel]
    exact agree_zero
  | succ fuel ih =>
    cases fuel' with
    | zero =>
      rw [Nat.le_zero.1 hfuel']
      exact agree_zero
    | succ fuel' =>
      intro c hlen
      obtain ⟨test, htest, hend⟩ := hstop
      rw [passesAtFuel, passesAtFuel, bind_eq_of_ok (htest c), bind_eq_of_ok (htest _),
        Cursor.upcoming_withDepth]
      cases hstops : test c.upcoming with
      | true => exact agree_pure [] c hlen
      | false =>
        have hne : c.upcoming ≠ [] := by
          intro hnil
          rw [hnil, hend] at hstops
          cases hstops
        obtain ⟨heq, hle⟩ := hpass c hlen
        have hshort := hshortens c hne
        rw [if_neg Bool.false_ne_true, if_neg Bool.false_ne_true]
        cases hread : pass' c with
        | error fault c' =>
          rw [hread] at heq hle
          rw [bind_eq_of_error heq, bind_eq_of_error hread]
          exact ⟨rfl, hle⟩
        | ok first c' =>
          rw [hread] at heq hle hshort
          have hrest := ih (hpass.mono (Nat.sub_le n 1)) (Nat.sub_le_of_le_add hfuel)
            (Nat.sub_le_of_le_add hfuel')
          have htail := hrest.bind fun rest => agree_pure (n := n - 1) (first.toList ++ rest)
          rw [ending_ok] at hle hshort
          obtain ⟨heq', hle'⟩ := htail c' (by omega)
          rw [bind_eq_of_ok heq, bind_eq_of_ok hread]
          exact ⟨heq', by omega⟩

/-- A pass over the body of a class agrees if functions do. -/
theorem agree_methodPass {function function' : Parse FunctionDecl}
    (h : Agree depth n function function') :
    Agree depth n (methodPass function) (methodPass function') := by
  refine agree_accept_ite _ ?_ (agree_advance.bind fun _ => agree_pure _)
  exact (h.mono (Nat.sub_le n 1)).bind fun _ => agree_pure _

/-! ### Statements and declarations -/

/-- Classes agree if the rules inside do. -/
theorem agree_classDecl (h : x.Agree depth n y) (hy : y.Progresses) :
    Agree depth n (classDecl x) (classDecl y) := by
  refine (agree_expectName _).bind fun name => (agree_expect _ _).bind fun _ => ?_
  rw [methodsAtFuel_eq, methodsAtFuel_eq]
  refine (agree_passesAtFuel stopsAtEnd_blockEnds (agree_methodPass h.function)
    (shortens_methodPass hy.steady.function) h.rounds h.rounds').bind fun methods => ?_
  exact (agree_expect _ _).bind fun _ => agree_pure _

/-- Variables agree if the rules inside do. -/
theorem agree_variableDecl (h : x.Agree depth n y) :
    Agree depth n (variableDecl x) (variableDecl y) := by
  have hend : ∀ (m : Nat) (name : Name) (initial : Option Expr), Agree depth m (do
      let _ ← Parse.expect (.symbol .semicolon) .declarationEnd
      return Stmt.declare name initial) (do
      let _ ← Parse.expect (.symbol .semicolon) .declarationEnd
      return Stmt.declare name initial) :=
    fun _ _ _ => (agree_expect _ _).bind fun _ => agree_pure _
  refine (agree_expectName _).bind fun name => agree_accept_ite _ ?_ ?_
  · exact h.pred.expression.bind fun e => (agree_pure _).bind (hend _ name)
  · exact (agree_pure _).bind (hend _ name)

/-- Declarations agree if the rules inside do. -/
theorem agree_declarationRule (h : x.Agree depth n y) (hy : y.Progresses) :
    Agree depth n (declarationRule x) (declarationRule y) := by
  refine agree_accept_ite _ ((agree_classDecl h.pred hy).bind fun _ => agree_pure _) ?_
  refine agree_accept_ite _ (h.pred.function.bind fun _ => agree_pure _) ?_
  exact agree_accept_ite _ (agree_variableDecl h.pred) h.statement

/-- Declarations one after another agree, for all bounds that are large enough. -/
theorem agree_declarationsAtFuel (h : x.Agree depth n y) (hy : y.Progresses) {stop : Parse Bool}
    (hstop : StopsAtEnd stop) {fuel fuel' : Nat} (hfuel : n ≤ fuel) (hfuel' : n ≤ fuel') :
    Agree depth n (declarationsAtFuel x stop fuel) (declarationsAtFuel y stop fuel') := by
  rw [declarationsAtFuel_eq, declarationsAtFuel_eq]
  exact agree_passesAtFuel hstop (agree_recovering (agree_declarationRule h hy))
    (shortens_declaration hy) hfuel hfuel'

/-- Blocks agree if the rules inside do. -/
theorem agree_block (h : x.Agree depth n y) (hy : y.Progresses) :
    Agree depth n (block x) (block y) :=
  (agree_declarationsAtFuel h hy stopsAtEnd_blockEnds h.rounds h.rounds').bind fun _ =>
    (agree_expect _ _).bind fun _ => agree_pure _

/-- Functions agree if the rules inside do. -/
theorem agree_function (h : x.Agree depth n y) (hy : y.Progresses) :
    Agree depth n (function x) (function y) := by
  refine (agree_expectName _).bind fun name => (agree_expect _ _).bind fun _ => ?_
  refine (agree_separated (agree_expectName _) _ h.rounds h.rounds').bind fun params => ?_
  refine (agree_expect _ _).bind fun _ => (agree_expect _ _).bind fun _ => ?_
  exact (agree_block h hy).bind fun body => agree_pure _

/-- Choices agree if the rules inside do. -/
theorem agree_branch (h : x.Agree depth n y) : Agree depth n (branch x) (branch y) := by
  refine (agree_expect _ _).bind fun _ => h.expression.bind fun condition => ?_
  refine (agree_expect _ _).bind fun _ => h.statement.bind fun thenBranch => ?_
  refine agree_accept_ite _ ?_ (agree_pure _)
  exact h.pred.statement.bind fun elseBranch => agree_pure _

/-- Loops agree if the rules inside do. -/
theorem agree_loop (h : x.Agree depth n y) : Agree depth n (loop x) (loop y) := by
  refine (agree_expect _ _).bind fun _ => h.expression.bind fun condition => ?_
  exact (agree_expect _ _).bind fun _ => h.statement.bind fun body => agree_pure _

/-- Returns agree if the rules inside do. -/
theorem agree_leave (h : x.Agree depth n y) (line : Nat) :
    Agree depth n (leave x line) (leave y line) := by
  have hend : ∀ value : Option Expr, Agree depth n (do
      let _ ← Parse.expect (.symbol .semicolon) .returnEnd
      return Stmt.leave line value) (do
      let _ ← Parse.expect (.symbol .semicolon) .returnEnd
      return Stmt.leave line value) :=
    fun _ => (agree_expect _ _).bind fun _ => agree_pure _
  refine agree_bind_sees _ fun bare => agree_ite ((agree_pure _).bind hend) ?_
  exact h.expression.bind fun e => (agree_pure _).bind hend

/-- Statements agree if the rules inside do. -/
theorem agree_statement (h : x.Agree depth n y) (hy : y.Progresses) :
    Agree depth n (statement x) (statement y) := by
  refine agree_bind_get fun c => ?_
  rw [Cursor.current?_withDepth]
  split
  · exact (agree_advance.bind fun _ => agree_branch h) c
  · exact (agree_advance.bind fun _ => agree_loop h) c
  · exact (agree_advance.bind fun _ => agree_leave h _) c
  · exact (agree_advance.bind fun _ => (agree_block h hy).bind fun _ => agree_pure _) c
  · refine (agree_advance.bind fun _ => h.expression.bind fun _ => ?_) c
    exact (agree_expect _ _).bind fun _ => agree_pure _
  · refine (h.expression.bind fun _ => ?_) c
    exact (agree_expect _ _).bind fun _ => agree_pure _

/-! ### Nesting -/

/-- A rule with one more level open agrees with the rule for which one level less is left. -/
theorem agree_nested (hdepth : depth < maxNesting) {rule rule' : Parse α}
    (h : Agree (depth + 1) n rule rule') : Agree depth n (nested rule) rule' := by
  intro c hlen
  obtain ⟨heq, hle⟩ := h c hlen
  refine ⟨?_, hle⟩
  unfold nested
  rw [Cursor.depth_withDepth, if_neg (Nat.not_le.2 hdepth)]
  show (match rule (c.withDepth (depth + 1)) with
    | .ok a c' => EStateM.Result.ok a (c'.withDepth (c'.depth - 1))
    | .error fault c' => .error fault (c'.withDepth (c'.depth - 1))) = _
  rw [heq]
  cases rule' c with
  | ok a c' => rfl
  | error fault c' => rfl

/-- Where `maxNesting` levels are open, no other one is opened. -/
theorem agree_nested_full (rule : Parse α) :
    Agree maxNesting n (nested rule) (failAt .tooDeep) := by
  intro c hlen
  obtain ⟨heq, hle⟩ := agree_failAt (α := α) .tooDeep c hlen
  refine ⟨?_, hle⟩
  unfold nested
  rw [Cursor.depth_withDepth, if_pos (Nat.le_refl maxNesting)]
  exact heq

end Grammar

namespace Rules

open Grammar

variable {depth n : Nat} {inner inner' : Rules}

/-- While a level may be opened, counting it agrees with having one level fewer left. -/
theorem Agree.counted (hdepth : depth < maxNesting) (h : inner.Agree (depth + 1) n inner')
    (hinner' : inner'.Progresses) : inner.counted.Agree depth n inner'.outward where
  rounds := h.rounds
  rounds' := h.rounds'
  statement := agree_nested hdepth (agree_statement h hinner')
  function := agree_nested hdepth (agree_function h hinner')
  expression := agree_nested hdepth (agree_expression h)
  unary := agree_nested hdepth (agree_unary h)

/-- When all the levels are open, counting one more agrees with refusing it. -/
theorem agree_counted_full (inner : Rules) {rounds : Nat} (hinner : n ≤ inner.rounds)
    (hrounds : n ≤ rounds) : inner.counted.Agree maxNesting n (exhausted rounds) where
  rounds := hinner
  rounds' := hrounds
  statement := agree_nested_full _
  function := agree_nested_full _
  expression := agree_nested_full _
  unary := agree_nested_full _

/-- Unfolding rules keeps the bound on repetitions. -/
theorem rounds_unfolded (below : Rules) (times : Nat) :
    (unfolded below times).rounds = below.rounds := by
  induction times with
  | zero => rfl
  | succ times ih => exact ih

/-- Rules that are written out more often than levels are left agree with the table for these
levels, whatever there is below. -/
theorem agree_unfolded (below : Rules) {rounds : Nat} (hbelow : n ≤ below.rounds)
    (hrounds : n ≤ rounds) {levels times : Nat} (htimes : levels < times)
    (hdepth : depth + levels = maxNesting) :
    (unfolded below times).Agree depth n (atLevels rounds levels) := by
  induction levels generalizing depth times with
  | zero =>
    obtain ⟨times, rfl⟩ := Nat.exists_eq_succ_of_ne_zero (Nat.ne_of_gt htimes)
    obtain rfl : depth = maxNesting := hdepth
    exact agree_counted_full _ (by rwa [rounds_unfolded]) hrounds
  | succ levels ih =>
    obtain ⟨times, rfl⟩ := Nat.exists_eq_succ_of_ne_zero (Nat.ne_of_gt (Nat.zero_lt_of_lt htimes))
    have hinner := ih (Nat.lt_of_succ_lt_succ htimes)
      (show depth + 1 + levels = maxNesting by omega)
    exact hinner.counted (by omega) (progresses_atLevels rounds levels)

end Rules

/-! ## Programs -/

namespace Cursor

/-- The rule for everything that stands at the top level, with as many rounds as there can be. -/
def topLevel (c : Cursor) : Parse (List Stmt) :=
  Grammar.declarationsAtFuel (Rules.atLevels (c.upcoming.length + 1) maxNesting) Parse.atEnd
    (c.upcoming.length + 1)

instance (c : Cursor) : Parse.Grows c.topLevel := by
  unfold topLevel
  infer_instance

/-- With rules that are written out often enough, whatever there is below them, the top level is
read with the table for `maxNesting` levels. -/
theorem declarationsAtFuel_unfolded {c : Cursor} (hclosed : c.depth = 0) {below : Rules}
    {times : Nat} (hbelow : c.upcoming.length < below.rounds) (htimes : maxNesting < times) :
    Grammar.declarationsAtFuel (Rules.unfolded below times) Parse.atEnd below.rounds c =
      Parse.resultWithDepth 0 (c.topLevel c) := by
  have hrules := Rules.agree_unfolded below hbelow (Nat.le_refl (c.upcoming.length + 1)) htimes
    (Nat.zero_add maxNesting)
  have hagree := Grammar.agree_declarationsAtFuel hrules (Rules.progresses_atLevels _ _)
    Parse.stopsAtEnd_atEnd hbelow (Nat.le_refl _)
  obtain ⟨heq, -⟩ := hagree c (Nat.lt_succ_self _)
  rwa [← hclosed, withDepth_self, hclosed] at heq

/-- It makes no difference how often rules are written out, if it is often enough, nor what there is
below them: no more than `maxNesting` levels are ever open. -/
theorem readWith_unfolded {c : Cursor} (hclosed : c.depth = 0) {below : Rules} {times : Nat}
    (hbelow : c.upcoming.length < below.rounds) (htimes : maxNesting < times) :
    c.readWith (Rules.unfolded below times) = c.readProgram := by
  unfold readProgram readWith
  rw [Rules.rounds_unfolded, Rules.rounds_unfolded,
    declarationsAtFuel_unfolded hclosed hbelow htimes,
    declarationsAtFuel_unfolded hclosed (Nat.lt_succ_self _) (Nat.lt_succ_self _)]

/-- A program that is read to the end has its problems, or none and its declarations. -/
theorem readProgram_of_ok {c c' : Cursor} {declarations : List Stmt} (hclosed : c.depth = 0)
    (h : c.topLevel c = .ok declarations c') :
    c.readProgram =
      if c'.problems = #[] then (.ok ⟨declarations⟩, c'.withDepth 0)
      else (.error c'.problems.toList, { c' with problems := #[], depth := 0 }) := by
  unfold readProgram readWith
  rw [Rules.rounds_unfolded, declarationsAtFuel_unfolded hclosed (Nat.lt_succ_self _)
    (Nat.lt_succ_self _), h]
  simp only [Parse.resultWithDepth, problems_withDepth, Array.isEmpty_iff]
  rfl

/-- A fault that nothing recovers from comes behind the problems so far. -/
theorem readProgram_of_error {c c' : Cursor} {fault : GrammarFault} (hclosed : c.depth = 0)
    (h : c.topLevel c = .error fault c') :
    c.readProgram.1 = .error (c'.problems.toList ++ [.grammatical fault]) := by
  have hsome : ((c'.withDepth 0).recordFault fault).problems ≠ #[] := by simp [recordFault]
  unfold readProgram readWith
  rw [Rules.rounds_unfolded, declarationsAtFuel_unfolded hclosed (Nat.lt_succ_self _)
    (Nat.lt_succ_self _), h]
  simp only [Parse.resultWithDepth, Array.isEmpty_iff, if_neg hsome, problems_recordFault,
    problems_withDepth]

/-- A source is refused with all problems that are known at the end, if there are any. -/
theorem readProgram_eq_error {c : Cursor} (hclosed : c.depth = 0)
    (h : Parse.report (c.topLevel c) ≠ []) :
    c.readProgram.1 = .error (Parse.report (c.topLevel c)) := by
  cases hread : c.topLevel c with
  | ok declarations c' =>
    rw [hread, Parse.report_ok] at h
    rw [readProgram_of_ok hclosed hread, Parse.report_ok, if_neg]
    intro hnone
    exact h (by rw [hnone])
  | error fault c' => rw [readProgram_of_error hclosed hread, Parse.report_error]

/-- A program is read exactly if the rule for the top level yields it and no problem is known. -/
theorem readProgram_eq_ok_iff {c : Cursor} (hclosed : c.depth = 0) {program : Program} :
    c.readProgram.1 = .ok program ↔
      ∃ c', c.topLevel c = .ok program.declarations c' ∧ c'.problems = #[] := by
  constructor
  · intro h
    cases hread : c.topLevel c with
    | ok declarations c' =>
      rw [readProgram_of_ok hclosed hread] at h
      split at h
      · next hnone =>
        cases h
        exact ⟨c', rfl, hnone⟩
      · cases h
    | error fault c' =>
      rw [readProgram_of_error hclosed hread] at h
      cases h
  · rintro ⟨c', hread, hnone⟩
    rw [readProgram_of_ok hclosed hread, if_pos hnone]

end Cursor

end Quill
