import Quill.Proofs.Evaluation.Restoration

/-!
# The points of a run

A run is made of parts that are run in turn: operands, statements, rounds of loops, calls and the
bodies of functions. A `Point` is a part with the state in which it starts. `Enters` says which
parts a part runs directly, and from which states; `Reaches` is any number of such steps.

A step keeps the number of open calls, or opens one more where fewer than `maxCallDepth` are open
(`Enters.depth`), so there are never more than that (`Reaches.depth_le`). And every step leads to a
part with less fuel, to a smaller one, or to a loop with fewer rounds left (`Enters.rank_lt`).
-/

namespace Quill

open Eval

/-- What a part of a run does. -/
inductive Task where
  /-- An expression is evaluated. -/
  | expression (e : Expr)
  /-- Expressions are evaluated from left to right. -/
  | expressions (es : List Expr)
  /-- A statement is executed. -/
  | statement (s : Stmt)
  /-- Statements are executed in order. -/
  | statements (body : List Stmt)
  /-- A loop goes on for so many rounds. -/
  | loop (condition : Expr) (body : Stmt) (rounds : Nat)
  /-- A value is called. -/
  | call (callee : Value) (arguments : List Value) (line : Nat)

/-- A part of a run and the state in which it starts. -/
structure Point where
  /-- The fuel for calls and loops. -/
  fuel : Nat
  /-- What is done. -/
  task : Task
  /-- The state in which it starts. -/
  machine : Machine

namespace Machine

/-- The state in which the body of a block runs. -/
def enteringBlock (m : Machine) : Machine :=
  { m with store := (m.store.addChild m.scope).2, scope := (m.store.addChild m.scope).1 }

/-- The function that runs when a value is called: the value itself, or the initializer of a class
made ready for a new object. Without an initializer nothing runs. -/
def invoked? (m : Machine) : Value → Option (FunctionValue × Machine)
  | .function f => some (f, m)
  | .classValue c =>
    match c.initializer? with
    | none => none
    | some method =>
      let (id, store) := m.store.addObject c
      let (f, store) := store.bindMethod c method id
      some (f, { m with store := store })
  | _ => none

end Machine

/-! ## Steps -/

/-- The first point runs the second as one of its parts. -/
inductive Enters : Point → Point → Prop where
  | operand {fuel m operator operand} :
    Enters ⟨fuel, .expression (.unary operator operand), m⟩ ⟨fuel, .expression operand, m⟩
  | left {fuel m left operator right} :
    Enters ⟨fuel, .expression (.binary left operator right), m⟩ ⟨fuel, .expression left, m⟩
  | right {fuel m left operator right a m₁} (hleft : evaluateAtFuel fuel left m = .ok a m₁) :
    Enters ⟨fuel, .expression (.binary left operator right), m⟩ ⟨fuel, .expression right, m₁⟩
  | inner {fuel m inner} :
    Enters ⟨fuel, .expression (.group inner), m⟩ ⟨fuel, .expression inner, m⟩
  | assigned {fuel m name value} :
    Enters ⟨fuel, .expression (.assign name value), m⟩ ⟨fuel, .expression value, m⟩
  | callee {fuel m callee arguments line} :
    Enters ⟨fuel, .expression (.call callee arguments line), m⟩ ⟨fuel, .expression callee, m⟩
  | arguments {fuel m callee arguments line f m₁}
    (hcallee : evaluateAtFuel fuel callee m = .ok f m₁) :
    Enters ⟨fuel, .expression (.call callee arguments line), m⟩ ⟨fuel, .expressions arguments, m₁⟩
  | call {fuel m callee arguments line f m₁ values m₂}
    (hcallee : evaluateAtFuel fuel callee m = .ok f m₁)
    (harguments : Expr.evaluateAll (callAtFuel fuel) arguments m₁ = .ok values m₂) :
    Enters ⟨fuel, .expression (.call callee arguments line), m⟩ ⟨fuel, .call f values line, m₂⟩
  | ofGet {fuel m object property} :
    Enters ⟨fuel, .expression (.get object property), m⟩ ⟨fuel, .expression object, m⟩
  | ofSet {fuel m object property value} :
    Enters ⟨fuel, .expression (.set object property value), m⟩ ⟨fuel, .expression object, m⟩
  | set {fuel m object property value id m₁}
    (hobject : evaluateAtFuel fuel object m = .ok (.object id) m₁) :
    Enters ⟨fuel, .expression (.set object property value), m⟩ ⟨fuel, .expression value, m₁⟩
  | firstExpression {fuel m e rest} :
    Enters ⟨fuel, .expressions (e :: rest), m⟩ ⟨fuel, .expression e, m⟩
  | otherExpressions {fuel m e rest a m₁} (hfirst : evaluateAtFuel fuel e m = .ok a m₁) :
    Enters ⟨fuel, .expressions (e :: rest), m⟩ ⟨fuel, .expressions rest, m₁⟩
  | effect {fuel m value} :
    Enters ⟨fuel, .statement (.expression value), m⟩ ⟨fuel, .expression value, m⟩
  | printed {fuel m value} :
    Enters ⟨fuel, .statement (.print value), m⟩ ⟨fuel, .expression value, m⟩
  | initial {fuel m name value} :
    Enters ⟨fuel, .statement (.declare name (some value)), m⟩ ⟨fuel, .expression value, m⟩
  | block {fuel m body} :
    Enters ⟨fuel, .statement (.block body), m⟩ ⟨fuel, .statements body, m.enteringBlock⟩
  | condition {fuel m condition thenBranch elseBranch} :
    Enters ⟨fuel, .statement (.branch condition thenBranch elseBranch), m⟩
      ⟨fuel, .expression condition, m⟩
  | thenBranch {fuel m condition thenBranch elseBranch v m₁}
    (hcondition : evaluateAtFuel fuel condition m = .ok v m₁) (hv : v.isTruthy = true) :
    Enters ⟨fuel, .statement (.branch condition thenBranch elseBranch), m⟩
      ⟨fuel, .statement thenBranch, m₁⟩
  | elseBranch {fuel m condition thenBranch elseBranch v m₁}
    (hcondition : evaluateAtFuel fuel condition m = .ok v m₁) (hv : v.isTruthy = false) :
    Enters ⟨fuel, .statement (.branch condition thenBranch (some elseBranch)), m⟩
      ⟨fuel, .statement elseBranch, m₁⟩
  | loop {fuel m condition body} :
    Enters ⟨fuel, .statement (.loop condition body), m⟩ ⟨fuel, .loop condition body fuel, m⟩
  | loopCondition {fuel m condition body rounds} :
    Enters ⟨fuel, .loop condition body (rounds + 1), m⟩ ⟨fuel, .expression condition, m⟩
  | loopBody {fuel m condition body rounds v m₁}
    (hcondition : evaluateAtFuel fuel condition m = .ok v m₁) (hv : v.isTruthy = true) :
    Enters ⟨fuel, .loop condition body (rounds + 1), m⟩ ⟨fuel, .statement body, m₁⟩
  | again {fuel m condition body rounds v m₁ m₂}
    (hcondition : evaluateAtFuel fuel condition m = .ok v m₁) (hv : v.isTruthy = true)
    (hbody : executeAtFuel fuel body m₁ = .ok .normal m₂) :
    Enters ⟨fuel, .loop condition body (rounds + 1), m⟩ ⟨fuel, .loop condition body rounds, m₂⟩
  | result {fuel m line value} :
    Enters ⟨fuel, .statement (.leave line (some value)), m⟩ ⟨fuel, .expression value, m⟩
  | firstStatement {fuel m s rest} :
    Enters ⟨fuel, .statements (s :: rest), m⟩ ⟨fuel, .statement s, m⟩
  | otherStatements {fuel m s rest m₁} (hfirst : executeAtFuel fuel s m = .ok .normal m₁) :
    Enters ⟨fuel, .statements (s :: rest), m⟩ ⟨fuel, .statements rest, m₁⟩
  | body {fuel m callee arguments line f m₁} (hinvoked : m.invoked? callee = some (f, m₁))
    (harity : arguments.length = f.declaration.arity) (hdepth : m.depth < maxCallDepth) :
    Enters ⟨fuel + 1, .call callee arguments line, m⟩
      ⟨fuel, .statements f.declaration.body, m₁.entering f arguments⟩

/-- The second point is a part of the first, or of one of its parts, or it is the first itself. -/
inductive Reaches (p : Point) : Point → Prop where
  | refl : Reaches p p
  | step {q r} (h : Reaches p q) (hstep : Enters q r) : Reaches p r

/-- A part of the first point's part is reached from the first point. -/
theorem Enters.trans {p q r : Point} (hstep : Enters p q) (h : Reaches q r) : Reaches p r := by
  induction h with
  | refl => exact .step .refl hstep
  | step _ hstep' ih => exact .step ih hstep'

/-! ## Calls -/

/-- A class takes as many arguments as its initializer. -/
theorem arity_of_initializer? {c : ClassValue} {method : FunctionDecl}
    (h : c.initializer? = some method) : c.arity = method.arity := by
  rw [ClassValue.arity, h]
  rfl

/-- Calling a class with an initializer runs a function with this declaration. -/
theorem exists_invoked? (m : Machine) {c : ClassValue} {method : FunctionDecl}
    (h : c.initializer? = some method) :
    ∃ f m', m.invoked? (.classValue c) = some (f, m') ∧ f.declaration = method := by
  simp only [Machine.invoked?, h]
  exact ⟨_, _, rfl, rfl⟩

/-- What runs when a class is called is its initializer, made ready for a new object. -/
theorem exists_initializer_of_invoked? {m m' : Machine} {c : ClassValue} {f : FunctionValue}
    (h : m.invoked? (.classValue c) = some (f, m')) :
    ∃ method, c.initializer? = some method ∧
      f = ((m.store.addObject c).2.bindMethod c method ⟨m.store.objects.size⟩).1 ∧
      m' = { m with
        store := ((m.store.addObject c).2.bindMethod c method ⟨m.store.objects.size⟩).2 } := by
  cases hinitializer : c.initializer? with
  | none =>
    simp only [Machine.invoked?, hinitializer] at h
    cases h
  | some method =>
    simp only [Machine.invoked?, hinitializer] at h
    cases h
    exact ⟨method, rfl, rfl, rfl⟩

/-- Calling a class with an initializer is calling the initializer, made ready for a new object. -/
theorem construct_eq_of_invoked? (run : List Stmt → Eval Flow) {m m' : Machine} {c : ClassValue}
    {arguments : List Value} {f : FunctionValue}
    (hinvoked : m.invoked? (.classValue c) = some (f, m'))
    (harity : arguments.length = f.declaration.arity) (line : Nat) :
    construct run c arguments line m =
      (callFunction run f arguments line >>= fun _ =>
        (return .object ⟨m.store.objects.size⟩ : Eval Value)) m' := by
  obtain ⟨method, hinitializer, rfl, rfl⟩ := exists_initializer_of_invoked? hinvoked
  have hclass : arguments.length = c.arity :=
    harity.trans (arity_of_initializer? hinitializer).symm
  rw [construct, if_neg (not_not_intro hclass)]
  simp only [hinitializer]
  rfl

/-- Making a function ready to be called opens no call. -/
theorem depth_of_invoked? {m m' : Machine} {callee : Value} {f : FunctionValue}
    (h : m.invoked? callee = some (f, m')) : m'.depth = m.depth := by
  cases callee with
  | function g =>
    cases h
    rfl
  | classValue c =>
    obtain ⟨method, -, -, rfl⟩ := exists_initializer_of_invoked? h
    rfl
  | _ => cases h

/-! ## What steps keep -/

/-- The state in which running the point ends. -/
def Point.ending (p : Point) : Machine :=
  match p.task with
  | .expression e => Eval.ending (evaluateAtFuel p.fuel e p.machine)
  | .expressions es => Eval.ending (Expr.evaluateAll (callAtFuel p.fuel) es p.machine)
  | .statement s => Eval.ending (executeAtFuel p.fuel s p.machine)
  | .statements body => Eval.ending (Stmt.executeAll (callAtFuel p.fuel) p.fuel body p.machine)
  | .loop condition body rounds =>
    Eval.ending (loopAtFuel (evaluateAtFuel p.fuel condition) (executeAtFuel p.fuel body) rounds
      p.machine)
  | .call callee arguments line => Eval.ending (callAtFuel p.fuel callee arguments line p.machine)

/-- A point is left in the place in which it was entered. -/
theorem Point.samePlace (p : Point) : p.machine.SamePlace p.ending := by
  obtain ⟨fuel, task, m⟩ := p
  cases task with
  | expression e => exact restores_evaluateAtFuel fuel e m
  | expressions es => exact restores_evaluateAll fuel es m
  | statement s => exact restores_executeAtFuel fuel s m
  | statements body =>
    exact compositional_restores.statements (restores_callAtFuel fuel) fuel body m
  | loop condition body rounds =>
    exact compositional_restores.loopAtFuel (restores_evaluateAtFuel fuel condition)
      (restores_executeAtFuel fuel body) rounds m
  | call callee arguments line => exact restores_callAtFuel fuel callee arguments line m

/-- A value is called at the point. -/
def Point.IsCall (p : Point) : Prop :=
  match p.task with
  | .call _ _ _ => True
  | _ => False

/-- A part starts in the place of the whole, but for the body of a block, which has a scope of its
own, and for the body of a function, for which one more call is opened where that is allowed. -/
theorem Enters.place {p q : Point} (h : Enters p q) :
    p.machine.SamePlace q.machine ∨ q.machine = p.machine.enteringBlock
      ∨ p.IsCall ∧ p.machine.depth < maxCallDepth ∧ q.machine.depth = p.machine.depth + 1 := by
  have hexpression : ∀ {fuel e m a m₁}, evaluateAtFuel fuel e m = .ok a m₁ → m.SamePlace m₁ :=
    fun hok => (restores_evaluateAtFuel _ _).of_ok hok
  have hstatement : ∀ {fuel s m flow m₁}, executeAtFuel fuel s m = .ok flow m₁ → m.SamePlace m₁ :=
    fun hok => (restores_executeAtFuel _ _).of_ok hok
  cases h with
  | right hleft => exact .inl (hexpression hleft)
  | arguments hcallee => exact .inl (hexpression hcallee)
  | call hcallee harguments =>
    have hsame := (restores_evaluateAll _ _).of_ok harguments
    exact .inl ((hexpression hcallee).trans hsame)
  | set hobject => exact .inl (hexpression hobject)
  | otherExpressions hfirst => exact .inl (hexpression hfirst)
  | block => exact .inr (.inl rfl)
  | thenBranch hcondition => exact .inl (hexpression hcondition)
  | elseBranch hcondition => exact .inl (hexpression hcondition)
  | loopBody hcondition => exact .inl (hexpression hcondition)
  | again hcondition _ hbody => exact .inl ((hexpression hcondition).trans (hstatement hbody))
  | otherStatements hfirst => exact .inl (hstatement hfirst)
  | body hinvoked _ hdepth =>
    exact .inr (.inr ⟨trivial, hdepth, congrArg (· + 1) (depth_of_invoked? hinvoked)⟩)
  | _ => exact .inl (.refl _)

/-- A step keeps the number of open calls, or it opens one more where that is allowed. -/
theorem Enters.depth {p q : Point} (h : Enters p q) :
    q.machine.depth = p.machine.depth
      ∨ p.machine.depth < maxCallDepth ∧ q.machine.depth = p.machine.depth + 1 := by
  rcases h.place with hsame | hblock | ⟨-, hopens⟩
  · exact .inl hsame.depth
  · exact .inl (by rw [hblock, Machine.enteringBlock])
  · exact .inr hopens

/-- Fewer than one more than `maxCallDepth` calls are ever open. -/
theorem Reaches.depth_le {p q : Point} (h : Reaches p q) (hp : p.machine.depth ≤ maxCallDepth) :
    q.machine.depth ≤ maxCallDepth := by
  induction h with
  | refl => exact hp
  | step _ hstep ih =>
    obtain hsame | ⟨hlt, hmore⟩ := hstep.depth
    · exact hsame ▸ ih
    · exact hmore ▸ hlt

/-! ## Steps come to an end -/

/-- The size of a part; that of a call is nothing, since its body is counted with less fuel. -/
noncomputable def Task.size : Task → Nat
  | expression e => sizeOf e
  | expressions es => sizeOf es
  | statement s => sizeOf s
  | statements body => sizeOf body
  | loop condition body _ => sizeOf (Stmt.loop condition body)
  | call _ _ _ => 0

/-- The rounds of a loop that are left, and one more before it begins. -/
def Point.rounds (p : Point) : Nat :=
  match p.task with
  | .loop _ _ rounds => rounds
  | _ => p.fuel + 1

/-- Parts have less fuel, or they are smaller, or fewer rounds are left. -/
noncomputable def Point.rank (p : Point) : Nat × Nat × Nat := (p.fuel, p.task.size, p.rounds)

/-- Each step leads to a point of lower rank. -/
theorem Enters.rank_lt {p q : Point} (h : Enters p q) :
    Prod.Lex (· < ·) (Prod.Lex (· < ·) (· < ·)) q.rank p.rank := by
  cases h with
  | loop => exact .right _ (.right _ (Nat.lt_succ_self _))
  | again => exact .right _ (.right _ (Nat.lt_succ_self _))
  | body => exact .left _ _ (Nat.lt_succ_self _)
  | _ =>
    refine .right _ (.left _ _ ?_)
    simp +arith [Task.size]

end Quill
