import Quill.Proofs.Grammar.Levels
import Quill.Proofs.Lines.Relabelling

/-!
# Rules do not look at lines, nor at lexical faults

A `View` of a source shows it with other lines, and either with its lexical faults or without them.
The rules of the grammar decide by the kinds of tokens alone. So what a rule does on the view of a
cursor is the view of what it does on the cursor itself: it takes the same way, and yields the same
tree on other lines (`Carries`, with one lemma for each rule).

`Cursor.topLevel_cursor` says this of everything at the top level. It is what lets two sources be
compared that differ in their layout, in the places of their lexical faults, or in what stands before
them.
-/

namespace Quill

/-- What is shown of a source: the lines that are put in the place of its own, and whether lexical
faults are shown at all. -/
structure View where
  /-- The line that is shown for a line. -/
  line : Nat → Nat
  /-- Lexical faults are shown. -/
  faults : Bool

namespace View

/-- The source on its own lines, without its lexical faults. -/
def bare : View := ⟨id, false⟩

variable (v : View)

/-- The problem as it is shown, if it is. -/
def problem? : Problem → Option Problem
  | .lexical fault => if v.faults then some (.lexical (fault.mapLine v.line)) else none
  | .grammatical fault => some (.grammatical (fault.mapLine v.line))

/-- The lexical faults that are shown. -/
def lexical (faults : List LexicalFault) : List LexicalFault :=
  if v.faults then faults.map (LexicalFault.mapLine v.line) else []

/-- The token as it is shown. -/
def lexed (t : Lexed) : Lexed := ⟨t.token.mapLine v.line, v.lexical t.faults⟩

/-- The cursor in the source as it is shown. -/
def cursor (c : Cursor) : Cursor where
  upcoming := c.upcoming.map v.lexed
  endLine := v.line c.endLine
  problems := (c.problems.toList.filterMap v.problem?).toArray
  depth := c.depth

/-- What a rule comes to in the source as it is shown, with `g` for what it yields. -/
def result {α β : Type} (g : α → β) :
    EStateM.Result GrammarFault Cursor α → EStateM.Result GrammarFault Cursor β
  | .ok a c => .ok (g a) (v.cursor c)
  | .error fault c => .error (fault.mapLine v.line) (v.cursor c)

/-! ## Cursors -/

@[simp] theorem upcoming_cursor (c : Cursor) : (v.cursor c).upcoming = c.upcoming.map v.lexed :=
  rfl

@[simp] theorem problems_cursor (c : Cursor) :
    (v.cursor c).problems.toList = c.problems.toList.filterMap v.problem? := rfl

@[simp] theorem current?_cursor (c : Cursor) :
    (v.cursor c).current? = c.current?.map (Token.mapLine v.line) := by
  unfold Cursor.current?
  rw [upcoming_cursor, List.head?_map, Option.map_map, Option.map_map]
  rfl

@[simp] theorem line_cursor (c : Cursor) : (v.cursor c).line = v.line c.line := by
  unfold Cursor.line
  rw [current?_cursor]
  cases c.current? with
  | none => rfl
  | some t => rfl

/-- The view of lexical problems is that of their faults. -/
theorem filterMap_lexical (faults : List LexicalFault) :
    (faults.map Problem.lexical).filterMap v.problem? = (v.lexical faults).map Problem.lexical := by
  unfold lexical
  cases h : v.faults with
  | false =>
    rw [List.filterMap_map]
    simp [Function.comp_def, problem?, h]
  | true =>
    rw [List.filterMap_map]
    simp [Function.comp_def, problem?, h]

/-- Recording the faults that are shown is the view of recording all of them. -/
theorem recordFaults_cursor (c : Cursor) (faults : List LexicalFault) :
    (v.cursor c).recordFaults (v.lexical faults) = v.cursor (c.recordFaults faults) := by
  have hproblems : ((v.cursor c).recordFaults (v.lexical faults)).problems =
      (v.cursor (c.recordFaults faults)).problems := by
    apply Array.toList_inj.1
    rw [Cursor.problems_recordFaults, problems_cursor, problems_cursor,
      Cursor.problems_recordFaults, List.filterMap_append, filterMap_lexical]
  exact congrArg (fun problems => Cursor.mk _ _ problems _) hproblems

/-- Recording the fault that is shown is the view of recording it. -/
theorem recordFault_cursor (c : Cursor) (fault : GrammarFault) :
    (v.cursor c).recordFault (fault.mapLine v.line) = v.cursor (c.recordFault fault) := by
  have hproblems : ((v.cursor c).recordFault (fault.mapLine v.line)).problems =
      (v.cursor (c.recordFault fault)).problems := by
    apply Array.toList_inj.1
    simp [problem?]
  exact congrArg (fun problems => Cursor.mk _ _ problems _) hproblems

/-- Moving past a token in the view is the view of moving past it. -/
theorem advance_cursor (c : Cursor) : (v.cursor c).advance = v.cursor c.advance := by
  unfold Cursor.advance
  cases h : c.upcoming with
  | nil => simp [h]
  | cons passed rest =>
    simp only [upcoming_cursor, h, List.map_cons]
    exact v.recordFaults_cursor { c with upcoming := rest } passed.faults

/-- The faults that are shown of two lists are those shown of each. -/
theorem lexical_append (first second : List LexicalFault) :
    v.lexical (first ++ second) = v.lexical first ++ v.lexical second := by
  unfold lexical
  cases v.faults with
  | false => rfl
  | true => simp

/-- The faults that are shown of tokens are those of the tokens that are shown. -/
theorem lexical_flatMap (ts : List Lexed) :
    v.lexical (ts.flatMap Lexed.faults) = (ts.map v.lexed).flatMap Lexed.faults := by
  induction ts with
  | nil =>
    unfold lexical
    cases v.faults with
    | false => rfl
    | true => rfl
  | cons t rest ih =>
    rw [List.flatMap_cons, lexical_append, ih, List.map_cons, List.flatMap_cons]
    rfl

/-- The boundary up to which recovery goes is the same one. -/
theorem toBoundary_lexed (passed : Lexed) (rest : List Lexed) :
    Grammar.toBoundary (v.lexed passed) (rest.map v.lexed) =
      ((Grammar.toBoundary passed rest).1.map v.lexed,
        (Grammar.toBoundary passed rest).2.map v.lexed) := by
  induction rest generalizing passed with
  | nil => rfl
  | cons t rest ih =>
    have htest : (Grammar.endsStatement (v.lexed passed) || Grammar.startsStatement (v.lexed t)) =
        (Grammar.endsStatement passed || Grammar.startsStatement t) := rfl
    rw [List.map_cons, Grammar.toBoundary, Grammar.toBoundary, htest, ih]
    split
    · rfl
    · rfl

/-- Skipping to a boundary in the view is the view of skipping to it. -/
theorem recover_cursor (c : Cursor) : Grammar.recover (v.cursor c) = v.cursor (Grammar.recover c) := by
  unfold Grammar.recover
  cases h : c.upcoming with
  | nil => simp [h]
  | cons t rest =>
    simp only [upcoming_cursor, h, List.map_cons, toBoundary_lexed]
    rw [← List.map_cons, ← lexical_flatMap]
    exact v.recordFaults_cursor { c with upcoming := (Grammar.toBoundary t rest).2 } _

end View

namespace Parse

variable {α α' β β' : Type} {v : View}

/-! ## Rules that are put together -/

/-- In the source as it is shown, from this cursor on, `y` does what `x` does in the source itself,
with `g` for what it yields. -/
def CarriesFrom (v : View) (c : Cursor) (g : α → α') (x : Parse α) (y : Parse α') : Prop :=
  y (v.cursor c) = v.result g (x c)

/-- In the source as it is shown, `y` does what `x` does in the source itself, with `g` for what it
yields. -/
def Carries (v : View) (g : α → α') (x : Parse α) (y : Parse α') : Prop :=
  ∀ c : Cursor, CarriesFrom v c g x y

/-- Yielding a value is carried to the view. -/
theorem carries_pure {g : α → α'} (a : α) : Carries v g (pure a) (pure (g a)) := by
  intro c
  rfl

/-- Raising a fault is carried to the view, on the line that is shown. -/
theorem carries_throw {g : α → α'} (fault : GrammarFault) :
    Carries v g (throw fault) (throw (fault.mapLine v.line)) := by
  intro c
  rfl

/-- Rules one after another are carried if each of them is. -/
theorem Carries.bind {g : α → α'} {h : β → β'} {x : Parse α} {y : Parse α'} {p : α → Parse β}
    {q : α' → Parse β'} (hx : Carries v g x y) (hp : ∀ a, Carries v h (p a) (q (g a))) :
    Carries v h (x >>= p) (y >>= q) := by
  intro c
  have hfirst : y (v.cursor c) = v.result g (x c) := hx c
  unfold CarriesFrom
  rcases hread : x c with ⟨a, c'⟩ | ⟨fault, c'⟩
  · rw [hread] at hfirst
    rw [bind_eq_of_ok hread, bind_eq_of_ok hfirst]
    exact hp a c'
  · rw [hread] at hfirst
    rw [bind_eq_of_error hread, bind_eq_of_error hfirst]
    rfl

/-- What is done with the cursor is carried if it is from every one of them. -/
theorem carries_bind_get {h : β → β'} {p : Cursor → Parse β} {q : Cursor → Parse β'}
    (hp : ∀ c, CarriesFrom v c h (p c) (q (v.cursor c))) :
    Carries v h (get >>= p) (get >>= q) := by
  intro c
  exact hp c

/-- A choice that does not depend on the cursor is carried if both sides are. -/
theorem carries_ite {g : α → α'} {p : Prop} [Decidable p] {x y : Parse α} {x' y' : Parse α'}
    (hx : Carries v g x x') (hy : Carries v g y y') :
    Carries v g (if p then x else y) (if p then x' else y') := by
  split
  · exact hx
  · exact hy

/-! ## Primitives -/

/-- Moving past a token is carried to the view. -/
theorem carries_advance : Carries v id advance advance := by
  intro c
  show EStateM.Result.ok () (v.cursor c).advance = .ok () (v.cursor c.advance)
  rw [View.advance_cursor]

/-- A rule behind a token is carried if the rule is. -/
theorem carries_behind {g : α → α'} {x : Parse α} {y : Parse α'} (h : Carries v g x y) :
    Carries v g (do advance; x) (do advance; y) := by
  apply carries_advance.bind
  intro _
  exact h

/-- Failing with a cause is carried to the view. -/
theorem carries_failWith {g : α → α'} (cause : GrammarCause) :
    Carries v g (failWith cause) (failWith cause) := by
  intro c
  show EStateM.Result.error (GrammarFault.mk cause (v.cursor c).line) (v.cursor c) = _
  rw [View.line_cursor]
  rfl

/-- Failing at the next token is carried to the view. -/
theorem carries_failAt {g : α → α'} (cause : Option String → GrammarCause) :
    Carries v g (failAt cause) (failAt cause) := by
  apply carries_bind_get
  intro c
  have hfound : ((v.cursor c).current?.map Token.lexeme) = c.current?.map Token.lexeme := by
    rw [View.current?_cursor, Option.map_map]
    rfl
  rw [hfound]
  exact carries_failWith _ c

/-- A test of kinds accepts the same tokens. -/
theorem carries_acceptIf? (test : Kind → Bool) :
    Carries v (Option.map (Token.mapLine v.line)) (acceptIf? test) (acceptIf? test) := by
  intro c
  unfold CarriesFrom
  rw [acceptIf?_eq, acceptIf?_eq, View.current?_cursor, View.advance_cursor]
  cases c.current? with
  | none => rfl
  | some t =>
    simp only [Option.map_some, Token.kind_mapLine]
    by_cases h : test t.kind
    · simp [h, View.result]
    · simp [h, View.result]

/-- Taking a token that passes a test is carried, since views keep the kinds of tokens. -/
theorem carries_bind_acceptIf? (test : Kind → Bool) {h : β → β'} {p : Option Token → Parse β}
    {q : Option Token → Parse β'}
    (hsome : ∀ t, Carries v h (p (some t)) (q (some (t.mapLine v.line))))
    (hnone : Carries v h (p none) (q none)) :
    Carries v h (acceptIf? test >>= p) (acceptIf? test >>= q) := by
  apply (carries_acceptIf? test).bind
  intro found
  cases found with
  | none => exact hnone
  | some t => exact hsome t

/-- A choice by the next token is carried if both sides are. -/
theorem carries_accept_ite (kind : Kind) {h : β → β'} {x y : Parse β} {x' y' : Parse β'}
    (hx : Carries v h x x') (hy : Carries v h y y') :
    Carries v h (do if ← accept kind then x else y) (do if ← accept kind then x' else y') := by
  rw [bind_accept, bind_accept]
  exact carries_bind_acceptIf? _ (fun _ => hx) hy

/-- Expecting a kind of token is carried to the view. -/
theorem carries_expect (kind : Kind) (what : Expectation) :
    Carries v (Token.mapLine v.line) (expect kind what) (expect kind what) := by
  apply carries_bind_acceptIf?
  · intro t
    exact carries_pure t
  · exact carries_failAt _

/-- Expecting a name is carried to the view. -/
theorem carries_expectName (what : Expectation) :
    Carries v (Name.mapLine v.line) (expectName what) (expectName what) := by
  apply (carries_expect _ _).bind
  intro t
  exact carries_pure (⟨t.lexeme, t.line⟩ : Name)

/-- Looking for a kind of token is carried to the view. -/
theorem carries_sees (kind : Kind) : Carries v id (sees kind) (sees kind) := by
  intro c
  show EStateM.Result.ok ((v.cursor c).current?.map Token.kind == some kind) (v.cursor c) = _
  rw [View.current?_cursor, Option.map_map]
  rfl

/-- Asking for the end is carried to the view. -/
theorem carries_atEnd : Carries v id atEnd atEnd := by
  intro c
  show EStateM.Result.ok (c.upcoming.map v.lexed).isEmpty (v.cursor c) = _
  rw [List.isEmpty_map]
  rfl

/-- Asking whether a block ends is carried to the view. -/
theorem carries_blockEnds : Carries v id Grammar.blockEnds Grammar.blockEnds := by
  apply (carries_sees _).bind
  intro closes
  apply carries_atEnd.bind
  intro ends
  exact carries_pure (closes || ends)

/-- Recovery from a fault goes on at the same place. -/
theorem carries_recovering {g : α → α'} {rule : Parse α} {rule' : Parse α'}
    (h : Carries v g rule rule') :
    Carries v (Option.map g) (Grammar.recovering rule) (Grammar.recovering rule') := by
  intro c
  have hrule : rule' (v.cursor c) = v.result g (rule c) := h c
  unfold CarriesFrom Grammar.recovering
  rcases hread : rule c with ⟨a, c'⟩ | ⟨fault, c'⟩
  · rw [hrule, hread]
    rfl
  · rw [hrule, hread]
    show EStateM.Result.ok none (Grammar.recover ((v.cursor c').recordFault _)) = _
    rw [View.recordFault_cursor, View.recover_cursor]
    rfl

end Parse

/-- The rules of the second table do in the source as it is shown what those of the first one do in
the source itself. -/
structure Rules.Carry (v : View) (x y : Rules) : Prop where
  rounds : y.rounds = x.rounds
  statement : Parse.Carries v (Stmt.mapLines v.line) x.statement y.statement
  function : Parse.Carries v (FunctionDecl.mapLines v.line) x.function y.function
  expression : Parse.Carries v (Expr.mapLines v.line) x.expression y.expression
  unary : Parse.Carries v (Expr.mapLines v.line) x.unary y.unary

namespace Grammar

open Parse

variable {α : Type} {v : View} {x y : Rules}

/-! ## Expressions -/

/-- A list of items is carried if an item is. -/
theorem carries_separatedAtFuel {g : α → α} {item item' : Parse α} (hitem : Carries v g item item')
    (tooMany : GrammarCause) (fuel count : Nat) :
    Carries v (List.map g) (separatedAtFuel item tooMany fuel count)
      (separatedAtFuel item' tooMany fuel count) := by
  induction fuel generalizing count with
  | zero => exact carries_pure []
  | succ fuel ih =>
    apply carries_ite (carries_failWith _)
    apply hitem.bind
    intro first
    apply carries_accept_ite
    · apply (ih (count + 1)).bind
      intro rest
      exact carries_pure (first :: rest)
    · exact carries_pure [first]

/-- A list of items that may be empty is carried if an item is. -/
theorem carries_separated {g : α → α} {item item' : Parse α} (hitem : Carries v g item item')
    (rounds : Nat) (tooMany : GrammarCause) :
    Carries v (List.map g) (separated rounds item tooMany) (separated rounds item' tooMany) := by
  apply (carries_sees _).bind
  intro closes
  exact carries_ite (carries_pure []) (carries_separatedAtFuel hitem tooMany rounds 0)

/-- A primary expression is carried if the rules inside are. -/
theorem carries_primary (h : x.Carry v y) :
    Carries v (Expr.mapLines v.line) (primary x) (primary y) := by
  apply carries_bind_get
  intro c
  rw [View.current?_cursor]
  cases c.current? with
  | none => exact carries_failAt _ c
  | some t =>
    simp only [Option.map_some, Token.kind_mapLine]
    split
    · next value _ => exact (carries_advance.bind fun _ => carries_pure (Expr.literal value t.line)) c
    · split
      · exact (carries_advance.bind fun _ => carries_pure (Expr.reference ⟨t.lexeme, t.line⟩)) c
      · exact (carries_advance.bind fun _ => carries_pure (Expr.this t.line)) c
      · refine (carries_advance.bind fun _ => h.expression.bind fun e => ?_) c
        exact (carries_expect _ _).bind fun _ => carries_pure (Expr.group e)
      · exact carries_failAt _ c

/-- A chain of accesses is carried if the rules inside are. -/
theorem carries_accessesAtFuel (h : x.Carry v y) (fuel : Nat) (e : Expr) :
    Carries v (Expr.mapLines v.line) (accessesAtFuel x fuel e)
      (accessesAtFuel y fuel (e.mapLines v.line)) := by
  induction fuel generalizing e with
  | zero => exact carries_pure e
  | succ fuel ih =>
    apply carries_accept_ite
    · rw [h.rounds]
      apply (carries_separated h.expression _ _).bind
      intro arguments
      apply (carries_expect _ _).bind
      intro close
      have hrest := ih (.call e arguments close.line)
      rwa [Expr.mapLines, Expr.listMapLines_eq_map] at hrest
    · apply carries_accept_ite
      · apply (carries_expectName _).bind
        intro property
        exact ih (.get e property)
      · exact carries_pure e

/-- Calls and properties are carried if the rules inside are. -/
theorem carries_call (h : x.Carry v y) : Carries v (Expr.mapLines v.line) (call x) (call y) := by
  apply (carries_primary h).bind
  intro e
  rw [h.rounds]
  exact carries_accessesAtFuel h x.rounds e

/-- Operators before an operand are carried if the rules inside are. -/
theorem carries_unary (h : x.Carry v y) :
    Carries v (Expr.mapLines v.line) (unary x) (unary y) := by
  apply carries_bind_acceptIf?
  · intro operator
    apply h.unary.bind
    intro operand
    exact carries_pure (Expr.unary operator operand)
  · exact carries_call h

/-- A chain of operators is carried if its operands are. -/
theorem carries_chainAtFuel (isOperator : Kind → Bool) {operand operand' : Parse Expr}
    (h : Carries v (Expr.mapLines v.line) operand operand') (fuel : Nat) (left : Expr) :
    Carries v (Expr.mapLines v.line) (chainAtFuel isOperator operand fuel left)
      (chainAtFuel isOperator operand' fuel (left.mapLines v.line)) := by
  induction fuel generalizing left with
  | zero => exact carries_pure left
  | succ fuel ih =>
    apply carries_bind_acceptIf?
    · intro operator
      apply h.bind
      intro right
      exact ih (.binary left operator right)
    · exact carries_pure left

/-- A tier of operators is carried if its operands are. -/
theorem carries_chain (rounds : Nat) (isOperator : Kind → Bool) {operand operand' : Parse Expr}
    (h : Carries v (Expr.mapLines v.line) operand operand') :
    Carries v (Expr.mapLines v.line) (chain rounds isOperator operand)
      (chain rounds isOperator operand') := by
  apply h.bind
  intro first
  exact carries_chainAtFuel isOperator h rounds first

/-- All the tiers of operators are carried if the rules inside are. -/
theorem carries_equality (h : x.Carry v y) :
    Carries v (Expr.mapLines v.line) (equality x) (equality y) := by
  unfold equality comparison term factor
  rw [h.rounds]
  exact carries_chain _ _ (carries_chain _ _ (carries_chain _ _ (carries_chain _ _
    (carries_unary h))))

/-- What may be assigned to does not depend on lines. -/
theorem assignmentTo?_mapLines (f : Nat → Nat) (target value : Expr) :
    assignmentTo? (target.mapLines f) (value.mapLines f) =
      (assignmentTo? target value).map (Expr.mapLines f) := by
  cases target with
  | _ => simp [Expr.mapLines, assignmentTo?]

/-- An expression is carried if the rules inside are. -/
theorem carries_expression (h : x.Carry v y) :
    Carries v (Expr.mapLines v.line) (expression x) (expression y) := by
  apply (carries_equality h).bind
  intro left
  apply carries_bind_acceptIf?
  · intro equal
    apply h.expression.bind
    intro value
    rw [assignmentTo?_mapLines]
    cases assignmentTo? left value with
    | none => exact carries_throw ⟨.invalidTarget, equal.line⟩
    | some e => exact carries_pure e
  · exact carries_pure left

/-! ## Statements and declarations -/

/-- Passes are carried if the test that stops them and one pass are. -/
theorem carries_passesAtFuel {g : α → α} {stop : Parse Bool} {pass pass' : Parse (Option α)}
    (hstop : Carries v id stop stop) (hpass : Carries v (Option.map g) pass pass') (fuel : Nat) :
    Carries v (List.map g) (passesAtFuel stop pass fuel) (passesAtFuel stop pass' fuel) := by
  induction fuel with
  | zero => exact carries_pure []
  | succ fuel ih =>
    apply hstop.bind
    intro stops
    apply carries_ite (carries_pure [])
    apply hpass.bind
    intro first
    apply ih.bind
    intro rest
    have hlist : (first.map g).toList ++ rest.map g = (first.toList ++ rest).map g := by
      cases first with
      | none => rfl
      | some a => rfl
    rw [hlist]
    exact carries_pure (first.toList ++ rest)

/-- A pass over the body of a class is carried if functions are. -/
theorem carries_methodPass {function function' : Parse FunctionDecl}
    (h : Carries v (FunctionDecl.mapLines v.line) function function') :
    Carries v (Option.map (FunctionDecl.mapLines v.line)) (methodPass function)
      (methodPass function') := by
  apply carries_accept_ite
  · apply h.bind
    intro method
    exact carries_pure (some method)
  · apply carries_advance.bind
    intro _
    exact carries_pure none

/-- A class is carried if the rules inside are. -/
theorem carries_classDecl (h : x.Carry v y) :
    Carries v (ClassDecl.mapLines v.line) (classDecl x) (classDecl y) := by
  apply (carries_expectName _).bind
  intro name
  apply (carries_expect _ _).bind
  intro _
  rw [h.rounds, methodsAtFuel_eq, methodsAtFuel_eq]
  apply (carries_passesAtFuel carries_blockEnds (carries_methodPass h.function) x.rounds).bind
  intro methods
  apply (carries_expect _ _).bind
  intro _
  have hclass := carries_pure (v := v) (g := ClassDecl.mapLines v.line) ⟨name, methods⟩
  rwa [ClassDecl.mapLines, FunctionDecl.listMapLines_eq_map] at hclass

/-- A variable is carried if the rules inside are. -/
theorem carries_variableDecl (h : x.Carry v y) :
    Carries v (Stmt.mapLines v.line) (variableDecl x) (variableDecl y) := by
  have hend : ∀ (name : Name) (initial : Option Expr), Carries v (Stmt.mapLines v.line) (do
      let _ ← Parse.expect (.symbol .semicolon) .declarationEnd
      return Stmt.declare name initial) (do
      let _ ← Parse.expect (.symbol .semicolon) .declarationEnd
      return Stmt.declare (name.mapLine v.line) (initial.map (Expr.mapLines v.line))) := by
    intro name initial
    apply (carries_expect _ _).bind
    intro _
    exact carries_pure (Stmt.declare name initial)
  apply (carries_expectName _).bind
  intro name
  apply carries_accept_ite
  · apply h.expression.bind
    intro e
    exact (carries_pure (g := Option.map (Expr.mapLines v.line)) (some e)).bind (hend name)
  · exact (carries_pure (g := Option.map (Expr.mapLines v.line)) none).bind (hend name)

/-- A declaration is carried if the rules inside are. -/
theorem carries_declarationRule (h : x.Carry v y) :
    Carries v (Stmt.mapLines v.line) (declarationRule x) (declarationRule y) := by
  apply carries_accept_ite
  · apply (carries_classDecl h).bind
    intro declaration
    exact carries_pure (Stmt.classOf declaration)
  · apply carries_accept_ite
    · apply h.function.bind
      intro declaration
      exact carries_pure (Stmt.function declaration)
    · exact carries_accept_ite _ (carries_variableDecl h) h.statement

/-- Declarations one after another are carried if the rules inside are. -/
theorem carries_declarationsAtFuel (h : x.Carry v y) {stop : Parse Bool}
    (hstop : Carries v id stop stop) (fuel : Nat) :
    Carries v (Stmt.listMapLines v.line) (declarationsAtFuel x stop fuel)
      (declarationsAtFuel y stop fuel) := by
  rw [declarationsAtFuel_eq, declarationsAtFuel_eq,
    funext (Stmt.listMapLines_eq_map v.line)]
  exact carries_passesAtFuel hstop (carries_recovering (carries_declarationRule h)) fuel

/-- A block is carried if the rules inside are. -/
theorem carries_block (h : x.Carry v y) :
    Carries v (Stmt.listMapLines v.line) (block x) (block y) := by
  unfold block
  rw [h.rounds]
  apply (carries_declarationsAtFuel h carries_blockEnds x.rounds).bind
  intro body
  apply (carries_expect _ _).bind
  intro _
  exact carries_pure body

/-- A function is carried if the rules inside are. -/
theorem carries_function (h : x.Carry v y) :
    Carries v (FunctionDecl.mapLines v.line) (function x) (function y) := by
  apply (carries_expectName _).bind
  intro name
  apply (carries_expect _ _).bind
  intro _
  rw [h.rounds]
  apply (carries_separated (carries_expectName _) _ _).bind
  intro params
  apply (carries_expect _ _).bind
  intro _
  apply (carries_expect _ _).bind
  intro _
  apply (carries_block h).bind
  intro body
  have hfunction := carries_pure (v := v) (g := FunctionDecl.mapLines v.line) ⟨name, params, body⟩
  rwa [FunctionDecl.mapLines] at hfunction

/-- A choice is carried if the rules inside are. -/
theorem carries_branch (h : x.Carry v y) :
    Carries v (Stmt.mapLines v.line) (branch x) (branch y) := by
  apply (carries_expect _ _).bind
  intro _
  apply h.expression.bind
  intro condition
  apply (carries_expect _ _).bind
  intro _
  apply h.statement.bind
  intro thenBranch
  apply carries_accept_ite
  · apply h.statement.bind
    intro elseBranch
    have hbranch := carries_pure (v := v) (g := Stmt.mapLines v.line)
      (.branch condition thenBranch (some elseBranch))
    rwa [Stmt.mapLines] at hbranch
  · have hbranch := carries_pure (v := v) (g := Stmt.mapLines v.line)
      (.branch condition thenBranch none)
    rwa [Stmt.mapLines] at hbranch

/-- A loop is carried if the rules inside are. -/
theorem carries_loop (h : x.Carry v y) : Carries v (Stmt.mapLines v.line) (loop x) (loop y) := by
  apply (carries_expect _ _).bind
  intro _
  apply h.expression.bind
  intro condition
  apply (carries_expect _ _).bind
  intro _
  apply h.statement.bind
  intro body
  have hloop := carries_pure (v := v) (g := Stmt.mapLines v.line) (.loop condition body)
  rwa [Stmt.mapLines] at hloop

/-- A return is carried if the rules inside are, on the line that is shown. -/
theorem carries_leave (h : x.Carry v y) (line : Nat) :
    Carries v (Stmt.mapLines v.line) (leave x line) (leave y (v.line line)) := by
  have hend : ∀ value : Option Expr, Carries v (Stmt.mapLines v.line) (do
      let _ ← Parse.expect (.symbol .semicolon) .returnEnd
      return Stmt.leave line value) (do
      let _ ← Parse.expect (.symbol .semicolon) .returnEnd
      return Stmt.leave (v.line line) (value.map (Expr.mapLines v.line))) := by
    intro value
    apply (carries_expect _ _).bind
    intro _
    exact carries_pure (Stmt.leave line value)
  apply (carries_sees _).bind
  intro bare
  apply carries_ite
  · exact (carries_pure (g := Option.map (Expr.mapLines v.line)) none).bind hend
  · apply h.expression.bind
    intro e
    exact (carries_pure (g := Option.map (Expr.mapLines v.line)) (some e)).bind hend

/-- A statement is carried if the rules inside are. -/
theorem carries_statement (h : x.Carry v y) :
    Carries v (Stmt.mapLines v.line) (statement x) (statement y) := by
  have hexpression : Carries v (Stmt.mapLines v.line) (do
      let value ← x.expression
      let _ ← Parse.expect (.symbol .semicolon) .expressionEnd
      return Stmt.expression value) (do
      let value ← y.expression
      let _ ← Parse.expect (.symbol .semicolon) .expressionEnd
      return Stmt.expression value) :=
    h.expression.bind fun value => (carries_expect _ _).bind fun _ =>
      carries_pure (Stmt.expression value)
  have hprint : Carries v (Stmt.mapLines v.line) (do
      let value ← x.expression
      let _ ← Parse.expect (.symbol .semicolon) .printEnd
      return Stmt.print value) (do
      let value ← y.expression
      let _ ← Parse.expect (.symbol .semicolon) .printEnd
      return Stmt.print value) :=
    h.expression.bind fun value => (carries_expect _ _).bind fun _ =>
      carries_pure (Stmt.print value)
  have hblock : Carries v (Stmt.mapLines v.line) (do return Stmt.block (← block x))
      (do return Stmt.block (← block y)) :=
    (carries_block h).bind fun body => carries_pure (Stmt.block body)
  apply carries_bind_get
  intro c
  rw [View.current?_cursor]
  rcases c.current? with _ | ⟨kind, lexeme, line⟩
  · exact hexpression c
  · cases kind with
    | keyword word =>
      cases word with
      | ifWord => exact carries_behind (carries_branch h) c
      | whileWord => exact carries_behind (carries_loop h) c
      | returnWord => exact carries_behind (carries_leave h line) c
      | printWord => exact carries_behind hprint c
      | _ => exact hexpression c
    | symbol symbol =>
      cases symbol with
      | leftBrace => exact carries_behind hblock c
      | _ => exact hexpression c
    | _ => exact hexpression c

end Grammar

/-! ## Tables -/

namespace Rules

open Parse Grammar

variable (v : View)

/-- Rules that refuse every level are carried to the view. -/
theorem carry_exhausted (rounds : Nat) : (exhausted rounds).Carry v (exhausted rounds) where
  rounds := rfl
  statement := carries_failAt _
  function := carries_failAt _
  expression := carries_failAt _
  unary := carries_failAt _

variable {v} in
/-- The rules with one level more around them are carried if those inside are. -/
theorem Carry.outward {x y : Rules} (h : x.Carry v y) : x.outward.Carry v y.outward where
  rounds := h.rounds
  statement := carries_statement h
  function := carries_function h
  expression := carries_expression h
  unary := carries_unary h

/-- A table does the same in the source as it is shown. -/
theorem carry_atLevels (rounds levels : Nat) :
    (atLevels rounds levels).Carry v (atLevels rounds levels) := by
  induction levels with
  | zero => exact carry_exhausted v rounds
  | succ levels ih => exact ih.outward

end Rules

/-! ## Programs -/

namespace Cursor

variable (v : View)

/-- What is read at the top level in the view is the view of what is read there. -/
theorem topLevel_cursor (c : Cursor) :
    (v.cursor c).topLevel (v.cursor c) = v.result (Stmt.listMapLines v.line) (c.topLevel c) := by
  have hlength : (v.cursor c).upcoming.length = c.upcoming.length := List.length_map _
  unfold topLevel
  rw [hlength]
  exact Grammar.carries_declarationsAtFuel (Rules.carry_atLevels v _ _) Parse.carries_atEnd _ c

end Cursor

end Quill
