import Quill.Proofs.Grammar.Growth

/-!
# Rules make progress

A rule leaves the levels that are open as it finds them, and no more tokens than it finds
(`Steady`). Where it yields something it has passed at least one token (`Consumes`), and where it
fails, recovery passes one, unless none is left. So each pass of a repetition leaves fewer tokens
(`shortens_declaration`, `shortens_methodPass`).

Much of what is said of rules follows from how they are put together, whatever it is that is said.
`Compositional` is a property that is kept by putting rules together, and has one lemma for each
rule of the grammar.
-/

namespace Quill

namespace Parse

variable {α β : Type}

/-- The cursor at which a rule has ended, with a value or in a fault. -/
def ending : EStateM.Result GrammarFault Cursor α → Cursor
  | .ok _ c => c
  | .error _ c => c

@[simp] theorem ending_ok (a : α) (c : Cursor) : ending (.ok a c) = c := rfl

@[simp] theorem ending_error (fault : GrammarFault) (c : Cursor) :
    ending (.error fault c : EStateM.Result GrammarFault Cursor α) = c := rfl

/-! ## Properties of rules that are put together -/

/-- The property holds of the simplest rules and of every sequence of rules that have it. -/
structure Compositional (P : ∀ ⦃α : Type⦄, Parse α → Prop) : Prop where
  pure : ∀ {α : Type} (a : α), P (pure a)
  throw : ∀ {α : Type} (fault : GrammarFault), P (throw fault : Parse α)
  get : P (get : Parse Cursor)
  advance : P advance
  bind : ∀ {α β : Type} {x : Parse α} {f : α → Parse β}, P x → (∀ a, P (f a)) → P (x >>= f)

/-- A choice that does not depend on the cursor has the property if both sides do. -/
theorem of_both {P : Parse α → Prop} {p : Prop} [Decidable p] {x y : Parse α} (hx : P x)
    (hy : P y) : P (if p then x else y) := by
  split
  · exact hx
  · exact hy

namespace Compositional

variable {P : ∀ ⦃α : Type⦄, Parse α → Prop} (hP : Compositional P)

include hP

/-- Looking for a kind of token has the property. -/
theorem sees (kind : Kind) : P (sees kind) :=
  hP.bind (hP.bind hP.get fun _ => hP.pure _) fun _ => hP.pure _

/-- Asking for the end has the property. -/
theorem atEnd : P atEnd :=
  hP.bind hP.get fun _ => hP.pure _

/-- Taking a token that passes a test has the property. -/
theorem acceptIf? (test : Kind → Bool) : P (acceptIf? test) := by
  refine hP.bind hP.get fun c => ?_
  split
  · exact of_both (hP.bind hP.advance fun _ => hP.pure _) (hP.pure _)
  · exact hP.pure _

/-- Accepting a kind of token has the property. -/
theorem accept (kind : Kind) : P (accept kind) :=
  hP.bind (hP.acceptIf? _) fun _ => hP.pure _

/-- Failing with a cause has the property. -/
theorem failWith (cause : GrammarCause) : P (failWith cause : Parse α) :=
  hP.bind (hP.bind hP.get fun _ => hP.pure _) fun _ => hP.throw _

/-- Failing at the next token has the property. -/
theorem failAt (cause : Option String → GrammarCause) : P (failAt cause : Parse α) :=
  hP.bind hP.get fun _ => hP.failWith _

/-- Expecting a kind of token has the property. -/
theorem expect (kind : Kind) (what : Expectation) : P (expect kind what) := by
  refine hP.bind (hP.acceptIf? _) fun found => ?_
  split
  · exact hP.pure _
  · exact hP.failAt _

/-- Expecting a name has the property. -/
theorem expectName (what : Expectation) : P (expectName what) :=
  hP.bind (hP.expect _ _) fun _ => hP.pure _

end Compositional

end Parse

/-! ## Repetitions

Blocks, the top level and the bodies of classes are repetitions of one form: while nothing stops
them, they make another pass, and a pass may come to nothing. -/

namespace Grammar

open Parse

variable {α : Type}

/-- Passes over the tokens until a test stops them, with what they come to. -/
def passesAtFuel (stop : Parse Bool) (pass : Parse (Option α)) : (fuel : Nat) → Parse (List α)
  | 0 => return []
  | fuel + 1 => do
    if ← stop then return []
    else
      let first ← pass
      let rest ← passesAtFuel stop pass fuel
      return first.toList ++ rest

/-- One pass through the body of a class: a method, or another token that comes to nothing. -/
def methodPass (function : Parse FunctionDecl) : Parse (Option FunctionDecl) := do
  if ← accept (.keyword .fnWord) then
    let method ← function
    return some method
  else
    advance
    return none

/-- Declarations one after another are passes, each over one declaration. -/
theorem declarationsAtFuel_eq (rules : Rules) (stop : Parse Bool) (fuel : Nat) :
    declarationsAtFuel rules stop fuel = passesAtFuel stop (declaration rules) fuel := by
  induction fuel with
  | zero => rfl
  | succ fuel ih => rw [declarationsAtFuel, passesAtFuel, ih]

/-- A pass over the body of a class is written out in front of what follows it. -/
theorem methodPass_bind {β : Type} (function : Parse FunctionDecl)
    (f : Option FunctionDecl → Parse β) :
    methodPass function >>= f = (do
      if ← accept (.keyword .fnWord) then
        let method ← function
        f (some method)
      else
        advance
        f none) := by
  rw [methodPass, bind_assoc]
  refine congrArg (accept (.keyword .fnWord) >>= ·) (funext fun opens => ?_)
  cases opens with
  | true => simp
  | false => simp

/-- The methods of a class are passes over its body. -/
theorem methodsAtFuel_eq (function : Parse FunctionDecl) (fuel : Nat) :
    methodsAtFuel function fuel = passesAtFuel blockEnds (methodPass function) fuel := by
  induction fuel with
  | zero => rfl
  | succ fuel ih =>
    rw [methodsAtFuel, passesAtFuel, methodPass_bind, ih]
    generalize passesAtFuel blockEnds (methodPass function) fuel = rest
    simp [blockEnds]

end Grammar

/-! ## Properties of tables -/

/-- The property holds of every rule of the table. -/
structure Rules.All (P : ∀ ⦃α : Type⦄, Parse α → Prop) (rules : Rules) : Prop where
  statement : P rules.statement
  function : P rules.function
  expression : P rules.expression
  unary : P rules.unary

namespace Parse.Compositional

open Grammar

variable {α : Type} {P : ∀ ⦃α : Type⦄, Parse α → Prop} (hP : Compositional P) {rules : Rules}

include hP

/-! ### Expressions -/

/-- A list of items has the property if an item does. -/
theorem separatedAtFuel {item : Parse α} (hitem : P item) (tooMany : GrammarCause)
    (fuel count : Nat) : P (separatedAtFuel item tooMany fuel count) := by
  induction fuel generalizing count with
  | zero => exact hP.pure _
  | succ fuel ih =>
    refine of_both (hP.failWith _) (hP.bind hitem fun first => ?_)
    refine hP.bind (hP.accept _) fun more => of_both ?_ (hP.pure _)
    exact hP.bind (ih _) fun rest => hP.pure _

/-- A list of items that may be empty has the property if an item does. -/
theorem separated (rounds : Nat) {item : Parse α} (hitem : P item) (tooMany : GrammarCause) :
    P (separated rounds item tooMany) :=
  hP.bind (hP.sees _) fun _ => of_both (hP.pure _) (hP.separatedAtFuel hitem _ _ _)

/-- A primary expression has the property if the rules inside do. -/
theorem primary (hrules : rules.All P) : P (primary rules) := by
  refine hP.bind hP.get fun c => ?_
  split
  · exact hP.failAt _
  · split
    · exact hP.bind hP.advance fun _ => hP.pure _
    · split
      · exact hP.bind hP.advance fun _ => hP.pure _
      · exact hP.bind hP.advance fun _ => hP.pure _
      · refine hP.bind hP.advance fun _ => hP.bind hrules.expression fun e => ?_
        exact hP.bind (hP.expect _ _) fun _ => hP.pure _
      · exact hP.failAt _

/-- A chain of accesses has the property if the rules inside do. -/
theorem accessesAtFuel (hrules : rules.All P) (fuel : Nat) (e : Expr) :
    P (accessesAtFuel rules fuel e) := by
  induction fuel generalizing e with
  | zero => exact hP.pure _
  | succ fuel ih =>
    refine hP.bind (hP.accept _) fun opens => of_both ?_ ?_
    · refine hP.bind (hP.separated _ hrules.expression _) fun arguments => ?_
      exact hP.bind (hP.expect _ _) fun close => ih _
    · refine hP.bind (hP.accept _) fun point => of_both ?_ (hP.pure _)
      exact hP.bind (hP.expectName _) fun property => ih _

/-- Calls and properties have the property if the rules inside do. -/
theorem call (hrules : rules.All P) : P (call rules) :=
  hP.bind (hP.primary hrules) fun _ => hP.accessesAtFuel hrules _ _

/-- Operators before an operand have the property if the rules inside do. -/
theorem unary (hrules : rules.All P) : P (unary rules) := by
  refine hP.bind (hP.acceptIf? _) fun found => ?_
  split
  · exact hP.bind hrules.unary fun operand => hP.pure _
  · exact hP.call hrules

/-- A chain of operators has the property if its operands do. -/
theorem chainAtFuel (isOperator : Kind → Bool) {operand : Parse Expr} (h : P operand) (fuel : Nat)
    (left : Expr) : P (chainAtFuel isOperator operand fuel left) := by
  induction fuel generalizing left with
  | zero => exact hP.pure _
  | succ fuel ih =>
    refine hP.bind (hP.acceptIf? _) fun found => ?_
    split
    · exact hP.bind h fun right => ih _
    · exact hP.pure _

/-- A tier of operators has the property if its operands do. -/
theorem chain (rounds : Nat) (isOperator : Kind → Bool) {operand : Parse Expr} (h : P operand) :
    P (chain rounds isOperator operand) :=
  hP.bind h fun _ => hP.chainAtFuel isOperator h _ _

/-- All the tiers of operators have the property if the rules inside do. -/
theorem equality (hrules : rules.All P) : P (equality rules) :=
  hP.chain _ _ (hP.chain _ _ (hP.chain _ _ (hP.chain _ _ (hP.unary hrules))))

/-- An expression has the property if the rules inside do. -/
theorem expression (hrules : rules.All P) : P (expression rules) := by
  refine hP.bind (hP.equality hrules) fun left => hP.bind (hP.acceptIf? _) fun found => ?_
  split
  · exact hP.pure _
  · refine hP.bind hrules.expression fun value => ?_
    split
    · exact hP.pure _
    · exact hP.throw _

/-! ### Statements and declarations -/

/-- Passes have the property if the test that stops them and one pass do. -/
theorem passesAtFuel {stop : Parse Bool} {pass : Parse (Option α)} (hstop : P stop) (hpass : P pass)
    (fuel : Nat) : P (passesAtFuel stop pass fuel) := by
  induction fuel with
  | zero => exact hP.pure _
  | succ fuel ih =>
    refine hP.bind hstop fun stops => of_both (hP.pure _) ?_
    exact hP.bind hpass fun first => hP.bind ih fun rest => hP.pure _

/-- Asking whether a block ends has the property. -/
theorem blockEnds : P blockEnds :=
  hP.bind (hP.sees _) fun _ => hP.bind hP.atEnd fun _ => hP.pure _

/-- A pass over the body of a class has the property if functions do. -/
theorem methodPass {function : Parse FunctionDecl} (h : P function) : P (methodPass function) := by
  refine hP.bind (hP.accept _) fun opens => of_both ?_ ?_
  · exact hP.bind h fun method => hP.pure _
  · exact hP.bind hP.advance fun _ => hP.pure _

/-- The methods of a class have the property if functions do. -/
theorem methodsAtFuel {function : Parse FunctionDecl} (h : P function) (fuel : Nat) :
    P (methodsAtFuel function fuel) := by
  rw [methodsAtFuel_eq]
  exact hP.passesAtFuel hP.blockEnds (hP.methodPass h) fuel

/-- A class has the property if the rules inside do. -/
theorem classDecl (hrules : rules.All P) : P (classDecl rules) := by
  refine hP.bind (hP.expectName _) fun name => hP.bind (hP.expect _ _) fun _ => ?_
  refine hP.bind (hP.methodsAtFuel hrules.function _) fun methods => ?_
  exact hP.bind (hP.expect _ _) fun _ => hP.pure _

/-- A variable has the property if the rules inside do. -/
theorem variableDecl (hrules : rules.All P) : P (variableDecl rules) := by
  refine hP.bind (hP.expectName _) fun name => hP.bind (hP.accept _) fun equal => ?_
  have hend : ∀ initial, P (do
      let _ ← Parse.expect (.symbol .semicolon) .declarationEnd
      return Stmt.declare name initial) :=
    fun initial => hP.bind (hP.expect _ _) fun _ => hP.pure _
  refine of_both ?_ (hP.bind (hP.pure _) hend)
  exact hP.bind hrules.expression fun e => hP.bind (hP.pure _) hend

/-- A declaration has the property if the rules inside do. -/
theorem declarationRule (hrules : rules.All P) : P (declarationRule rules) := by
  refine hP.bind (hP.accept _) fun _ => of_both ?_ ?_
  · exact hP.bind (hP.classDecl hrules) fun _ => hP.pure _
  refine hP.bind (hP.accept _) fun _ => of_both (hP.bind hrules.function fun _ => hP.pure _) ?_
  exact hP.bind (hP.accept _) fun _ => of_both (hP.variableDecl hrules) hrules.statement

/-- A block has the property if its body does, which recovers from faults. -/
theorem block (hbody : P (declarationsAtFuel rules Grammar.blockEnds rules.rounds)) :
    P (Grammar.block rules) :=
  hP.bind hbody fun _ => hP.bind (hP.expect _ _) fun _ => hP.pure _

/-- A function has the property if its block does. -/
theorem function (hblock : P (Grammar.block rules)) : P (Grammar.function rules) := by
  refine hP.bind (hP.expectName _) fun name => hP.bind (hP.expect _ _) fun _ => ?_
  refine hP.bind (hP.separated _ (hP.expectName _) _) fun params => ?_
  refine hP.bind (hP.expect _ _) fun _ => hP.bind (hP.expect _ _) fun _ => ?_
  exact hP.bind hblock fun body => hP.pure _

/-- A choice has the property if the rules inside do. -/
theorem branch (hrules : rules.All P) : P (branch rules) := by
  refine hP.bind (hP.expect _ _) fun _ => hP.bind hrules.expression fun condition => ?_
  refine hP.bind (hP.expect _ _) fun _ => hP.bind hrules.statement fun thenBranch => ?_
  refine hP.bind (hP.accept _) fun _ => of_both ?_ (hP.pure _)
  exact hP.bind hrules.statement fun elseBranch => hP.pure _

/-- A loop has the property if the rules inside do. -/
theorem loop (hrules : rules.All P) : P (loop rules) := by
  refine hP.bind (hP.expect _ _) fun _ => hP.bind hrules.expression fun condition => ?_
  exact hP.bind (hP.expect _ _) fun _ => hP.bind hrules.statement fun body => hP.pure _

/-- A return has the property if the rules inside do. -/
theorem leave (hrules : rules.All P) (line : Nat) : P (leave rules line) := by
  have hend : ∀ value, P (do
      let _ ← Parse.expect (.symbol .semicolon) .returnEnd
      return Stmt.leave line value) :=
    fun value => hP.bind (hP.expect _ _) fun _ => hP.pure _
  refine hP.bind (hP.sees _) fun bare => of_both (hP.bind (hP.pure _) hend) ?_
  exact hP.bind hrules.expression fun e => hP.bind (hP.pure _) hend

/-- A statement has the property if the rules inside and blocks do. -/
theorem statement (hrules : rules.All P) (hblock : P (Grammar.block rules)) :
    P (Grammar.statement rules) := by
  refine hP.bind hP.get fun c => ?_
  split
  · exact hP.bind hP.advance fun _ => hP.branch hrules
  · exact hP.bind hP.advance fun _ => hP.loop hrules
  · exact hP.bind hP.advance fun _ => hP.leave hrules _
  · exact hP.bind hP.advance fun _ => hP.bind hblock fun _ => hP.pure _
  · refine hP.bind hP.advance fun _ => hP.bind hrules.expression fun _ => ?_
    exact hP.bind (hP.expect _ _) fun _ => hP.pure _
  · exact hP.bind hrules.expression fun _ => hP.bind (hP.expect _ _) fun _ => hP.pure _

end Parse.Compositional

/-! ## Steady rules -/

namespace Parse

/-- The rule leaves the levels that are open as they are, and no more tokens than there were. -/
def Steady ⦃α : Type⦄ (rule : Parse α) : Prop :=
  ∀ c : Cursor, (ending (rule c)).depth = c.depth
    ∧ (ending (rule c)).upcoming.length ≤ c.upcoming.length

/-- What the rule yields from the cursor, it yields for at least one token. -/
def ConsumesFrom {α : Type} (c : Cursor) (rule : Parse α) : Prop :=
  ∀ (a : α) (c' : Cursor), rule c = .ok a c' → c'.upcoming.length < c.upcoming.length

/-- What the rule yields, it yields for at least one token. -/
def Consumes {α : Type} (rule : Parse α) : Prop :=
  ∀ c : Cursor, ConsumesFrom c rule

/-- Unless no token is left, the rule passes one, however it ends. -/
def Shortens {α : Type} (rule : Parse α) : Prop :=
  ∀ c : Cursor, c.upcoming ≠ [] → (ending (rule c)).upcoming.length < c.upcoming.length

end Parse

namespace Cursor

@[simp] theorem depth_recordFaults (c : Cursor) (faults : List LexicalFault) :
    (c.recordFaults faults).depth = c.depth := rfl

@[simp] theorem upcoming_recordFaults (c : Cursor) (faults : List LexicalFault) :
    (c.recordFaults faults).upcoming = c.upcoming := rfl

@[simp] theorem depth_recordFault (c : Cursor) (fault : GrammarFault) :
    (c.recordFault fault).depth = c.depth := rfl

@[simp] theorem upcoming_recordFault (c : Cursor) (fault : GrammarFault) :
    (c.recordFault fault).upcoming = c.upcoming := rfl

@[simp] theorem depth_advance (c : Cursor) : c.advance.depth = c.depth := by
  unfold advance
  split
  · rfl
  · rfl

@[simp] theorem upcoming_advance (c : Cursor) : c.advance.upcoming = c.upcoming.tail := by
  unfold advance
  split
  · next h => rw [h, List.tail_nil]
  · next h => rw [h, List.tail_cons, upcoming_recordFaults]

/-- A current token is one of those ahead. -/
theorem upcoming_ne_nil_of_current? {c : Cursor} {t : Token} (h : c.current? = some t) :
    c.upcoming ≠ [] := by
  intro hnone
  rw [current?, hnone] at h
  cases h

@[simp] theorem depth_recover (c : Cursor) : (Grammar.recover c).depth = c.depth := by
  unfold Grammar.recover
  split
  · rfl
  · rfl

/-- Skipping to a boundary leaves no more tokens than there were. -/
theorem length_toBoundary (passed : Lexed) (rest : List Lexed) :
    (Grammar.toBoundary passed rest).2.length ≤ rest.length := by
  induction rest generalizing passed with
  | nil => exact Nat.le_refl _
  | cons t rest ih =>
    rw [Grammar.toBoundary]
    split
    · exact Nat.le_refl _
    · exact Nat.le_succ_of_le (ih t)

/-- Recovery passes a token, unless none is left. -/
theorem length_recover (c : Cursor) :
    (Grammar.recover c).upcoming.length ≤ c.upcoming.length - 1 := by
  unfold Grammar.recover
  split
  · next h => rw [h]; exact Nat.le_refl _
  · next t rest h =>
    rw [h]
    exact length_toBoundary t rest

end Cursor

namespace Parse

variable {α β : Type}

/-- A steady rule that yields something keeps the depth and leaves no more tokens. -/
theorem Steady.of_ok {rule : Parse α} (h : Steady rule) {c c' : Cursor} {a : α}
    (hok : rule c = .ok a c') : c'.depth = c.depth ∧ c'.upcoming.length ≤ c.upcoming.length := by
  have hc := h c
  rwa [hok] at hc

/-- A steady rule that fails keeps the depth and leaves no more tokens. -/
theorem Steady.of_error {rule : Parse α} (h : Steady rule) {c c' : Cursor} {fault : GrammarFault}
    (herror : rule c = .error fault c') :
    c'.depth = c.depth ∧ c'.upcoming.length ≤ c.upcoming.length := by
  have hc := h c
  rwa [herror] at hc

/-- Rules one after another are steady if each of them is. -/
theorem Steady.bind {x : Parse α} {f : α → Parse β} (hx : Steady x) (hf : ∀ a, Steady (f a)) :
    Steady (x >>= f) := by
  intro c
  cases h : x c with
  | error fault c' =>
    rw [bind_eq_of_error h]
    exact hx.of_error h
  | ok a c' =>
    obtain ⟨hdepth, hlen⟩ := hx.of_ok h
    obtain ⟨hdepth', hlen'⟩ := hf a c'
    rw [bind_eq_of_ok h]
    exact ⟨hdepth'.trans hdepth, Nat.le_trans hlen' hlen⟩

/-- Being steady is kept by all the ways in which rules are put together. -/
theorem compositional_steady : Compositional Steady where
  pure _ _ := ⟨rfl, Nat.le_refl _⟩
  throw _ _ := ⟨rfl, Nat.le_refl _⟩
  get _ := ⟨rfl, Nat.le_refl _⟩
  advance c := by
    refine ⟨c.depth_advance, ?_⟩
    show c.advance.upcoming.length ≤ c.upcoming.length
    rw [Cursor.upcoming_advance, List.length_tail]
    exact Nat.sub_le _ _
  bind := Steady.bind

/-- Counting a level of nesting is steady, since the level is closed again either way. -/
theorem steady_nested {rule : Parse α} (h : Steady rule) : Steady (Grammar.nested rule) := by
  intro c
  unfold Grammar.nested
  split
  · exact compositional_steady.failAt _ c
  · obtain ⟨hdepth, hlen⟩ := h { c with depth := c.depth + 1 }
    cases hrule : rule { c with depth := c.depth + 1 } with
    | ok a c' =>
      rw [hrule] at hdepth hlen
      exact ⟨Nat.sub_eq_of_eq_add hdepth, hlen⟩
    | error fault c' =>
      rw [hrule] at hdepth hlen
      exact ⟨Nat.sub_eq_of_eq_add hdepth, hlen⟩

/-- A rule that is recovered from is steady if the rule is. -/
theorem steady_recovering {rule : Parse α} (h : Steady rule) :
    Steady (Grammar.recovering rule) := by
  intro c
  unfold Grammar.recovering
  cases hrule : rule c with
  | ok a c' => exact h.of_ok hrule
  | error fault c' =>
    obtain ⟨hdepth, hlen⟩ := h.of_error hrule
    have hrecover := (c'.recordFault fault).length_recover
    rw [Cursor.upcoming_recordFault] at hrecover
    refine ⟨?_, ?_⟩
    · rw [ending_ok, Cursor.depth_recover, Cursor.depth_recordFault, hdepth]
    · rw [ending_ok]
      omega

end Parse

namespace Grammar

open Parse

variable {rules : Rules}

/-- A declaration with its recovery is steady if the rules inside are. -/
theorem steady_declaration (h : rules.All Steady) : Steady (declaration rules) :=
  steady_recovering (compositional_steady.declarationRule h)

/-- Declarations one after another are steady if the rules inside are. -/
theorem steady_declarationsAtFuel (h : rules.All Steady) {stop : Parse Bool} (hstop : Steady stop)
    (fuel : Nat) : Steady (declarationsAtFuel rules stop fuel) := by
  rw [declarationsAtFuel_eq]
  exact compositional_steady.passesAtFuel hstop (steady_declaration h) fuel

/-- A block is steady if the rules inside are. -/
theorem steady_block (h : rules.All Steady) : Steady (block rules) :=
  compositional_steady.block (steady_declarationsAtFuel h compositional_steady.blockEnds _)

end Grammar

/-! ## Rules that consume tokens -/

namespace Parse

variable {α β : Type}

/-- A rule that consumes may be followed by any that is steady. -/
theorem Consumes.bind {x : Parse α} {f : α → Parse β} (hx : Consumes x)
    (hf : ∀ a, Steady (f a)) : Consumes (x >>= f) := by
  intro c b c' hok
  obtain ⟨a, c₁, hx', hf'⟩ := bind_eq_ok.1 hok
  exact Nat.lt_of_le_of_lt ((hf a).of_ok hf').2 (hx c a c₁ hx')

/-- A steady rule may stand in front of one that consumes. -/
theorem Consumes.bind_right {x : Parse α} {f : α → Parse β} (hx : Steady x)
    (hf : ∀ a, Consumes (f a)) : Consumes (x >>= f) := by
  intro c b c' hok
  obtain ⟨a, c₁, hx', hf'⟩ := bind_eq_ok.1 hok
  exact Nat.lt_of_lt_of_le (hf a c₁ b c' hf') (hx.of_ok hx').2

/-- A rule that fails yields nothing, so it consumes whatever it yields. -/
theorem consumes_throw (fault : GrammarFault) : Consumes (throw fault : Parse α) := nofun

/-- Failing at the next token consumes whatever it yields. -/
theorem consumes_failAt (cause : Option String → GrammarCause) :
    Consumes (failAt cause : Parse α) :=
  .bind_right compositional_steady.get fun _ =>
    .bind_right (compositional_steady.bind compositional_steady.get fun _ =>
      compositional_steady.pure _) fun _ => consumes_throw _

/-- Moving past a token leaves one token fewer. -/
theorem length_advance {c : Cursor} {t : Token} (ht : c.current? = some t) :
    c.advance.upcoming.length + 1 = c.upcoming.length := by
  have hpos := List.length_pos_iff.2 (Cursor.upcoming_ne_nil_of_current? ht)
  rw [Cursor.upcoming_advance, List.length_tail]
  omega

/-- A token is accepted and passed, or the cursor stays. -/
theorem acceptIf?_passes (test : Kind → Bool) (c : Cursor) :
    acceptIf? test c = .ok none c ∨ ∃ t, acceptIf? test c = .ok (some t) c.advance
      ∧ c.advance.upcoming.length + 1 = c.upcoming.length := by
  rw [acceptIf?_eq]
  split
  · next t ht =>
    split
    · exact .inr ⟨t, rfl, length_advance ht⟩
    · exact .inl rfl
  · exact .inl rfl

/-- What is done once a token has been accepted may do without consuming more, and what is done if
none has been may not. -/
theorem consumes_bind_acceptIf? (test : Kind → Bool) {f : Option Token → Parse β}
    (hsome : ∀ t, Steady (f (some t))) (hnone : Consumes (f none)) :
    Consumes (acceptIf? test >>= f) := by
  intro c b c' hok
  obtain haccept | ⟨t, haccept, hlen⟩ := acceptIf?_passes test c
  · rw [bind_eq_of_ok haccept] at hok
    exact hnone c b c' hok
  · rw [bind_eq_of_ok haccept] at hok
    have hrest := ((hsome t).of_ok hok).2
    omega

/-- Accepting a kind of token is taking one that passes the test for it. -/
theorem bind_accept (kind : Kind) (f : Bool → Parse β) :
    accept kind >>= f = acceptIf? (· == kind) >>= fun found => f found.isSome := by
  rw [accept, bind_assoc]
  simp only [pure_bind]

/-- Where a token is accepted it is consumed, so only the other side has to consume one. -/
theorem consumes_bind_accept (kind : Kind) {x y : Parse β} (hx : Steady x) (hy : Consumes y) :
    Consumes (do if ← accept kind then x else y) := by
  rw [bind_accept]
  exact consumes_bind_acceptIf? _ (fun t => hx) hy

/-- What is done with the cursor consumes if it does from every one of them. -/
theorem consumes_bind_get {f : Cursor → Parse β} (h : ∀ c, ConsumesFrom c (f c)) :
    Consumes (get >>= f) := by
  intro c b c' hok
  rw [bind_eq_of_ok (get_eq c)] at hok
  exact h c b c' hok

/-- What begins by passing a token that is there consumes it. -/
theorem consumesFrom_advance_bind {f : Unit → Parse β} (hf : ∀ u, Steady (f u)) {c : Cursor}
    {t : Token} (ht : c.current? = some t) : ConsumesFrom c (advance >>= f) := by
  intro b c' hok
  obtain ⟨_, c₁, hadvance, hrest⟩ := bind_eq_ok.1 hok
  cases hadvance
  have hlen := ((hf ()).of_ok hrest).2
  have hadvance := length_advance ht
  omega

end Parse

namespace Grammar

open Parse

variable {α : Type} {rules : Rules}

/-- A primary expression consumes a token. -/
theorem consumes_primary (h : rules.All Steady) : Consumes (primary rules) := by
  refine consumes_bind_get fun c => ?_
  split
  · exact consumes_failAt _ c
  · next t ht =>
    split
    · exact consumesFrom_advance_bind (fun _ => compositional_steady.pure _) ht
    · split
      · exact consumesFrom_advance_bind (fun _ => compositional_steady.pure _) ht
      · exact consumesFrom_advance_bind (fun _ => compositional_steady.pure _) ht
      · refine consumesFrom_advance_bind (fun _ => h.expression.bind fun e => ?_) ht
        exact (compositional_steady.expect _ _).bind fun _ => compositional_steady.pure _
      · exact consumes_failAt _ c

/-- A call or a property consumes a token. -/
theorem consumes_call (h : rules.All Steady) : Consumes (call rules) :=
  (consumes_primary h).bind fun _ => compositional_steady.accessesAtFuel h _ _

/-- An expression with operators before it consumes a token. -/
theorem consumes_unary (h : rules.All Steady) : Consumes (unary rules) :=
  consumes_bind_acceptIf? _ (fun _ => h.unary.bind fun _ => compositional_steady.pure _)
    (consumes_call h)

/-- A chain of operators consumes a token if its operands do. -/
theorem consumes_chain (rounds : Nat) (isOperator : Kind → Bool) {operand : Parse Expr}
    (h : Steady operand) (hoperand : Consumes operand) :
    Consumes (chain rounds isOperator operand) :=
  hoperand.bind fun _ => compositional_steady.chainAtFuel isOperator h _ _

/-- Operators and their operands consume a token. -/
theorem consumes_equality (h : rules.All Steady) : Consumes (equality rules) := by
  have hunary := compositional_steady.unary h
  have hfactor := compositional_steady.chain rules.rounds isFactorOperator hunary
  have hterm := compositional_steady.chain rules.rounds isTermOperator hfactor
  have hcomparison := compositional_steady.chain rules.rounds isComparisonOperator hterm
  exact consumes_chain _ _ hcomparison <| consumes_chain _ _ hterm <|
    consumes_chain _ _ hfactor <| consumes_chain _ _ hunary (consumes_unary h)

/-- An expression consumes a token. -/
theorem consumes_expression (h : rules.All Steady) : Consumes (expression rules) := by
  refine (consumes_equality h).bind fun left => (compositional_steady.acceptIf? _).bind ?_
  intro found
  split
  · exact compositional_steady.pure _
  · refine h.expression.bind fun value => ?_
    split
    · exact compositional_steady.pure _
    · exact compositional_steady.throw _

/-- A statement consumes a token if expressions do. -/
theorem consumes_statement (h : rules.All Steady) (hexpression : Consumes rules.expression) :
    Consumes (statement rules) := by
  refine consumes_bind_get fun c => ?_
  split
  · next ht => exact consumesFrom_advance_bind (fun _ => compositional_steady.branch h) ht
  · next ht => exact consumesFrom_advance_bind (fun _ => compositional_steady.loop h) ht
  · next ht => exact consumesFrom_advance_bind (fun _ => compositional_steady.leave h _) ht
  · next ht =>
    refine consumesFrom_advance_bind (fun _ => (steady_block h).bind fun _ => ?_) ht
    exact compositional_steady.pure _
  · next ht =>
    refine consumesFrom_advance_bind (fun _ => h.expression.bind fun _ => ?_) ht
    exact (compositional_steady.expect _ _).bind fun _ => compositional_steady.pure _
  · refine (hexpression.bind fun _ => ?_) c
    exact (compositional_steady.expect _ _).bind fun _ => compositional_steady.pure _

/-- A declaration consumes a token if statements do. -/
theorem consumes_declarationRule (h : rules.All Steady) (hstatement : Consumes rules.statement) :
    Consumes (declarationRule rules) := by
  refine consumes_bind_accept _ ((compositional_steady.classDecl h).bind fun _ => ?_) ?_
  · exact compositional_steady.pure _
  refine consumes_bind_accept _ (h.function.bind fun _ => compositional_steady.pure _) ?_
  exact consumes_bind_accept _ (compositional_steady.variableDecl h) hstatement

/-- Counting a level of nesting consumes what the rule inside does. -/
theorem consumes_nested {rule : Parse α} (h : Consumes rule) : Consumes (nested rule) := by
  intro c a c' hok
  unfold nested at hok
  split at hok
  · exact consumes_failAt _ c a c' hok
  · cases hrule : rule { c with depth := c.depth + 1 } with
    | ok a' c₁ =>
      rw [hrule] at hok
      cases hok
      have hlt := h _ _ _ hrule
      exact hlt
    | error fault c₁ =>
      rw [hrule] at hok
      cases hok

end Grammar

/-! ## Passes -/

namespace Rules

/-- No rule of the table leaves a level open or adds tokens, and a declaration or statement that is
yielded has passed a token. -/
structure Progresses (rules : Rules) : Prop where
  steady : rules.All Parse.Steady
  statement : Parse.Consumes rules.statement
  expression : Parse.Consumes rules.expression

/-- Rules that refuse every level make progress, as they yield nothing. -/
theorem progresses_exhausted (rounds : Nat) : (exhausted rounds).Progresses where
  steady :=
    { statement := Parse.compositional_steady.failAt _
      function := Parse.compositional_steady.failAt _
      expression := Parse.compositional_steady.failAt _
      unary := Parse.compositional_steady.failAt _ }
  statement := Parse.consumes_failAt _
  expression := Parse.consumes_failAt _

/-- The rules with one level more around them make progress if those inside do. -/
theorem Progresses.outward {inner : Rules} (h : inner.Progresses) : inner.outward.Progresses where
  steady :=
    { statement := Parse.compositional_steady.statement h.steady (Grammar.steady_block h.steady)
      function := Parse.compositional_steady.function (Grammar.steady_block h.steady)
      expression := Parse.compositional_steady.expression h.steady
      unary := Parse.compositional_steady.unary h.steady }
  statement := Grammar.consumes_statement h.steady h.expression
  expression := Grammar.consumes_expression h.steady

/-- The rules with any number of levels left make progress. -/
theorem progresses_atLevels (rounds levels : Nat) : (atLevels rounds levels).Progresses := by
  induction levels with
  | zero => exact progresses_exhausted rounds
  | succ levels ih => exact ih.outward

/-- Counting the levels of rules keeps their progress. -/
theorem Progresses.counted {inner : Rules} (h : inner.Progresses) : inner.counted.Progresses where
  steady :=
    { statement := Parse.steady_nested h.outward.steady.statement
      function := Parse.steady_nested h.outward.steady.function
      expression := Parse.steady_nested h.outward.steady.expression
      unary := Parse.steady_nested h.outward.steady.unary }
  statement := Grammar.consumes_nested h.outward.statement
  expression := Grammar.consumes_nested h.outward.expression

/-- Rules unfolded any number of times make progress. -/
theorem Progresses.unfolded {below : Rules} (h : below.Progresses) (times : Nat) :
    (unfolded below times).Progresses := by
  induction times with
  | zero => exact h
  | succ times ih => exact ih.counted

end Rules

namespace Grammar

open Parse

variable {α : Type} {rules : Rules}

/-- A rule that is recovered from passes a token: either it has yielded something, or recovery
passes one. -/
theorem shortens_recovering {rule : Parse α} (hsteady : Steady rule) (hrule : Consumes rule) :
    Shortens (recovering rule) := by
  intro c hc
  unfold recovering
  cases hread : rule c with
  | ok a c' => exact hrule c a c' hread
  | error fault c' =>
    have hlen := (hsteady.of_error hread).2
    have hrecover := (c'.recordFault fault).length_recover
    have hpos := List.length_pos_iff.2 hc
    rw [Cursor.upcoming_recordFault] at hrecover
    rw [ending_ok]
    omega

/-- Each pass of the top level and of a block passes a token. -/
theorem shortens_declaration (h : rules.Progresses) : Shortens (declaration rules) :=
  shortens_recovering (compositional_steady.declarationRule h.steady)
    (consumes_declarationRule h.steady h.statement)

/-- Each pass through the body of a class passes a token. -/
theorem shortens_methodPass {function : Parse FunctionDecl} (h : Steady function) :
    Shortens (methodPass function) := by
  intro c hc
  rw [methodPass, bind_accept]
  obtain haccept | ⟨t, haccept, hlen⟩ := acceptIf?_passes (· == .keyword .fnWord) c
  · have hpos := List.length_pos_iff.2 hc
    rw [bind_eq_of_ok haccept]
    show c.advance.upcoming.length < c.upcoming.length
    rw [Cursor.upcoming_advance, List.length_tail]
    omega
  · have hmethod : Steady (do
        let method ← function
        return some method) :=
      h.bind fun _ => compositional_steady.pure _
    have hrest := (hmethod c.advance).2
    rw [bind_eq_of_ok haccept, Option.isSome_some, if_pos rfl]
    omega

end Grammar

end Quill
