import Quill.Proofs.Evaluation.Points

/-!
# Bodies that are never entered

`Enters` says which points a run comes to. Here is the converse: a run comes to no others. To say so,
calls are guarded (`callGuarded`): where a body is about to run at a point that is not allowed,
something else is done in its place. As long as all points that the run reaches are allowed, the run
with guarded calls is the run itself, whatever that other thing is (`Expr.evaluate_guarded`,
`Stmt.execute_guarded`). So no body has been entered anywhere else, and nothing that a body might do
there has gone into the outcome.

What is carried through the tree is that calls agree with the real ones at the points behind the
start (`AgreesBehind`). That calls of all fuels agree follows by induction on the fuel.
-/

namespace Quill

open Eval

/-- Calls a value with so much fuel, but does something else in place of a body that is about to run
at a point that is not allowed. -/
def callGuarded (allowed : Point → Prop) [DecidablePred allowed] (beyond : List Stmt → Eval Flow) :
    (fuel : Nat) → Caller
  | 0 => fun _ _ _ => throw .unfinished
  | fuel + 1 => callWith fun body m =>
    if allowed ⟨fuel, .statements body, m⟩ then
      Stmt.executeAll (callGuarded allowed beyond fuel) fuel body m
    else beyond body m

/-- Sequences do the same from a state where their first parts do, and where their rests do from the
state in between. -/
theorem Eval.bind_eq_bind {α β : Type} {x x' : Eval α} {f f' : α → Eval β} {m : Machine}
    (hx : x m = x' m) (hf : ∀ a m', x' m = .ok a m' → f a m' = f' a m') :
    (x >>= f) m = (x' >>= f') m := by
  cases haction : x' m with
  | ok a m' =>
    rw [bind_eq_of_ok (hx.trans haction), bind_eq_of_ok haction]
    exact hf a m' haction
  | error stop m' => rw [bind_eq_of_error (hx.trans haction), bind_eq_of_error haction]

/-- Actions do the same in another scope if they do from the state in which they start there. -/
theorem Eval.inScope_eq_inScope {α : Type} {x x' : Eval α} {m : Machine} {scope : ScopeId}
    (h : x { m with scope := scope } = x' { m with scope := scope }) :
    inScope scope x m = inScope scope x' m := by
  rw [inScope, inScope, h]

/-- The calls do what calls with so much fuel do, wherever the run from the point makes one. -/
def AgreesBehind (p : Point) (fuel : Nat) (call : Caller) : Prop :=
  ∀ callee arguments line m, Reaches p ⟨fuel, .call callee arguments line, m⟩ →
    call callee arguments line m = callAtFuel fuel callee arguments line m

/-! ## Expressions -/

section

variable {p : Point} {fuel : Nat} {call : Caller}

mutual

/-- An expression that the run comes to has the value that it has with the real calls. -/
theorem Expr.evaluate_of_agreesBehind (h : AgreesBehind p fuel call) :
    (e : Expr) → ∀ m, Reaches p ⟨fuel, .expression e, m⟩ →
      e.evaluate call m = evaluateAtFuel fuel e m
  | .literal value line, m, _ => by
    simp only [evaluateAtFuel, Expr.evaluate]
  | .unary operator operand, m, hreach => by
    simp only [evaluateAtFuel, Expr.evaluate]
    exact bind_eq_bind (Expr.evaluate_of_agreesBehind h operand m (hreach.step .operand))
      fun _ _ _ => rfl
  | .binary left operator right, m, hreach => by
    simp only [evaluateAtFuel, Expr.evaluate]
    refine bind_eq_bind (Expr.evaluate_of_agreesBehind h left m (hreach.step .left))
      fun a m₁ hleft => ?_
    exact bind_eq_bind (Expr.evaluate_of_agreesBehind h right m₁ (hreach.step (.right hleft)))
      fun _ _ _ => rfl
  | .group inner, m, hreach => by
    simp only [evaluateAtFuel, Expr.evaluate]
    exact Expr.evaluate_of_agreesBehind h inner m (hreach.step .inner)
  | .reference name, m, _ => by
    simp only [evaluateAtFuel, Expr.evaluate]
  | .assign name value, m, hreach => by
    simp only [evaluateAtFuel, Expr.evaluate]
    exact bind_eq_bind (Expr.evaluate_of_agreesBehind h value m (hreach.step .assigned))
      fun _ _ _ => rfl
  | .call callee arguments line, m, hreach => by
    simp only [evaluateAtFuel, Expr.evaluate]
    refine bind_eq_bind (Expr.evaluate_of_agreesBehind h callee m (hreach.step .callee))
      fun f m₁ hcallee => ?_
    refine bind_eq_bind
      (Expr.evaluateAll_of_agreesBehind h arguments m₁ (hreach.step (.arguments hcallee)))
      fun values m₂ harguments => ?_
    exact h f values line m₂ (hreach.step (.call hcallee harguments))
  | .get object property, m, hreach => by
    simp only [evaluateAtFuel, Expr.evaluate]
    exact bind_eq_bind (Expr.evaluate_of_agreesBehind h object m (hreach.step .ofGet))
      fun _ _ _ => rfl
  | .set object property value, m, hreach => by
    simp only [evaluateAtFuel, Expr.evaluate]
    refine bind_eq_bind (Expr.evaluate_of_agreesBehind h object m (hreach.step .ofSet))
      fun target m₁ hobject => ?_
    -- The value is only come to where the target is an object.
    cases target with
    | object id =>
      refine bind_eq_bind rfl fun _ m₂ hid => ?_
      cases hid
      exact bind_eq_bind (Expr.evaluate_of_agreesBehind h value m₁ (hreach.step (.set hobject)))
        fun _ _ _ => rfl
    | _ => rfl
  | .this line, m, _ => by
    simp only [evaluateAtFuel, Expr.evaluate]

/-- Expressions that the run comes to have the values that they have with the real calls. -/
theorem Expr.evaluateAll_of_agreesBehind (h : AgreesBehind p fuel call) :
    (es : List Expr) → ∀ m, Reaches p ⟨fuel, .expressions es, m⟩ →
      Expr.evaluateAll call es m = Expr.evaluateAll (callAtFuel fuel) es m
  | [], m, _ => by
    simp only [Expr.evaluateAll]
  | e :: rest, m, hreach => by
    simp only [Expr.evaluateAll]
    refine bind_eq_bind (Expr.evaluate_of_agreesBehind h e m (hreach.step .firstExpression))
      fun v m₁ hfirst => ?_
    exact bind_eq_bind
      (Expr.evaluateAll_of_agreesBehind h rest m₁ (hreach.step (.otherExpressions hfirst)))
      fun _ _ _ => rfl

end

/-! ## Statements -/

/-- A loop that the run comes to goes as it does with the real calls, if its condition and its body
do wherever the run comes to them. -/
theorem loopAtFuel_of_agreesBehind {condition : Expr} {body : Stmt}
    (hcondition : ∀ m, Reaches p ⟨fuel, .expression condition, m⟩ →
      condition.evaluate call m = evaluateAtFuel fuel condition m)
    (hbody : ∀ m, Reaches p ⟨fuel, .statement body, m⟩ →
      body.execute call fuel m = executeAtFuel fuel body m) :
    ∀ rounds m, Reaches p ⟨fuel, .loop condition body rounds, m⟩ →
      loopAtFuel (condition.evaluate call) (body.execute call fuel) rounds m =
        loopAtFuel (evaluateAtFuel fuel condition) (executeAtFuel fuel body) rounds m
  | 0, _, _ => rfl
  | rounds + 1, m, hreach => by
    rw [loopAtFuel, loopAtFuel]
    refine bind_eq_bind (hcondition m (hreach.step .loopCondition)) fun v m₁ hvalue => ?_
    cases hv : v.isTruthy with
    | false => rfl
    | true =>
      refine bind_eq_bind (hbody m₁ (hreach.step (.loopBody hvalue hv))) fun flow m₂ hround => ?_
      cases flow with
      | normal =>
        exact loopAtFuel_of_agreesBehind hcondition hbody rounds m₂
          (hreach.step (.again hvalue hv hround))
      | returned value => rfl

mutual

/-- A statement that the run comes to does what it does with the real calls. -/
theorem Stmt.execute_of_agreesBehind (h : AgreesBehind p fuel call) :
    (s : Stmt) → ∀ m, Reaches p ⟨fuel, .statement s, m⟩ →
      s.execute call fuel m = executeAtFuel fuel s m
  | .expression value, m, hreach => by
    simp only [executeAtFuel, Stmt.execute]
    exact bind_eq_bind (value.evaluate_of_agreesBehind h m (hreach.step .effect)) fun _ _ _ => rfl
  | .print value, m, hreach => by
    simp only [executeAtFuel, Stmt.execute]
    exact bind_eq_bind (value.evaluate_of_agreesBehind h m (hreach.step .printed)) fun _ _ _ => rfl
  | .declare name none, m, _ => by
    simp only [executeAtFuel, Stmt.execute, Expr.evaluateOption]
  | .declare name (some value), m, hreach => by
    simp only [executeAtFuel, Stmt.execute, Expr.evaluateOption]
    exact bind_eq_bind (value.evaluate_of_agreesBehind h m (hreach.step .initial)) fun _ _ _ => rfl
  | .block body, m, hreach => by
    simp only [executeAtFuel, Stmt.execute]
    exact inScope_eq_inScope (m := { m with store := (m.store.addChild m.scope).2 })
      (Stmt.executeAll_of_agreesBehind h body m.enteringBlock (hreach.step .block))
  | .branch condition thenBranch none, m, hreach => by
    simp only [executeAtFuel, Stmt.execute]
    refine bind_eq_bind (condition.evaluate_of_agreesBehind h m (hreach.step .condition))
      fun v m₁ hvalue => ?_
    cases hv : v.isTruthy with
    | false => rfl
    | true =>
      exact Stmt.execute_of_agreesBehind h thenBranch m₁ (hreach.step (.thenBranch hvalue hv))
  | .branch condition thenBranch (some elseBranch), m, hreach => by
    simp only [executeAtFuel, Stmt.execute]
    refine bind_eq_bind (condition.evaluate_of_agreesBehind h m (hreach.step .condition))
      fun v m₁ hvalue => ?_
    cases hv : v.isTruthy with
    | false =>
      exact Stmt.execute_of_agreesBehind h elseBranch m₁ (hreach.step (.elseBranch hvalue hv))
    | true =>
      exact Stmt.execute_of_agreesBehind h thenBranch m₁ (hreach.step (.thenBranch hvalue hv))
  | .loop condition body, m, hreach => by
    simp only [executeAtFuel, Stmt.execute]
    exact loopAtFuel_of_agreesBehind (condition.evaluate_of_agreesBehind h)
      (Stmt.execute_of_agreesBehind h body) fuel m (hreach.step .loop)
  | .leave line none, m, _ => by
    simp only [executeAtFuel, Stmt.execute, Expr.evaluateOption]
  | .leave line (some value), m, hreach => by
    simp only [executeAtFuel, Stmt.execute, Expr.evaluateOption]
    exact bind_eq_bind (value.evaluate_of_agreesBehind h m (hreach.step .result)) fun _ _ _ => rfl
  | .function declaration, m, _ => by
    simp only [executeAtFuel, Stmt.execute]
  | .classOf declaration, m, _ => by
    simp only [executeAtFuel, Stmt.execute]

/-- Statements that the run comes to do what they do with the real calls. -/
theorem Stmt.executeAll_of_agreesBehind (h : AgreesBehind p fuel call) :
    (body : List Stmt) → ∀ m, Reaches p ⟨fuel, .statements body, m⟩ →
      Stmt.executeAll call fuel body m = Stmt.executeAll (callAtFuel fuel) fuel body m
  | [], m, _ => by
    simp only [Stmt.executeAll]
  | s :: rest, m, hreach => by
    simp only [Stmt.executeAll]
    refine bind_eq_bind (Stmt.execute_of_agreesBehind h s m (hreach.step .firstStatement))
      fun flow m₁ hfirst => ?_
    cases flow with
    | normal =>
      exact Stmt.executeAll_of_agreesBehind h rest m₁ (hreach.step (.otherStatements hfirst))
    | returned value => rfl

end

end

/-! ## Calls -/

/-- A function is called alike with two ways to run its body that agree where the body starts, if it
does start. -/
theorem callFunction_congr {run run' : List Stmt → Eval Flow} {f : FunctionValue}
    {arguments : List Value} {m : Machine}
    (h : arguments.length = f.declaration.arity → m.depth < maxCallDepth →
      run f.declaration.body (m.entering f arguments) =
        run' f.declaration.body (m.entering f arguments)) (line : Nat) :
    callFunction run f arguments line m = callFunction run' f arguments line m := by
  rw [callFunction_eq, callFunction_eq]
  by_cases harity : arguments.length = f.declaration.arity
  case neg => rw [if_pos harity, if_pos harity]
  rw [if_neg (not_not_intro harity), if_neg (not_not_intro harity)]
  by_cases hdepth : maxCallDepth ≤ m.depth
  · rw [if_pos hdepth, if_pos hdepth]
  · rw [if_neg hdepth, if_neg hdepth, h harity (Nat.lt_of_not_le hdepth)]

/-- A value is called alike with two ways to run bodies that agree where the body starts that the
call runs, if it runs one. -/
theorem callWith_congr {run run' : List Stmt → Eval Flow} {callee : Value} {arguments : List Value}
    {m : Machine}
    (h : ∀ f m₁, m.invoked? callee = some (f, m₁) → arguments.length = f.declaration.arity →
      m.depth < maxCallDepth → run f.declaration.body (m₁.entering f arguments) =
        run' f.declaration.body (m₁.entering f arguments)) (line : Nat) :
    callWith run callee arguments line m = callWith run' callee arguments line m := by
  cases callee with
  | function f => exact callFunction_congr (h f m rfl) line
  | classValue c =>
    show construct run c arguments line m = construct run' c arguments line m
    cases hinitializer : c.initializer? with
    | none =>
      unfold construct
      rw [hinitializer]
    | some method =>
      obtain ⟨f, m₁, hinvoked, rfl⟩ := exists_invoked? m hinitializer
      by_cases harity : arguments.length = f.declaration.arity
      · rw [construct_eq_of_invoked? run hinvoked harity,
          construct_eq_of_invoked? run' hinvoked harity]
        refine bind_eq_bind (callFunction_congr (fun _ hdepth => ?_) line) fun _ _ _ => rfl
        exact h f m₁ hinvoked harity (depth_of_invoked? hinvoked ▸ hdepth)
      · have hclass : arguments.length ≠ c.arity := by
          rwa [arity_of_initializer? hinitializer]
        rw [construct, construct, if_pos hclass, if_pos hclass]
  | _ => rfl

/-! ## Runs with guarded calls -/

section

variable {allowed : Point → Prop} [DecidablePred allowed] {p : Point}

/-- Guarded calls do what the real ones do, wherever the run makes one, if all points that the run
reaches are allowed. -/
theorem agreesBehind_callGuarded (hallowed : ∀ q, Reaches p q → allowed q)
    (beyond : List Stmt → Eval Flow) (fuel : Nat) :
    AgreesBehind p fuel (callGuarded allowed beyond fuel) := by
  induction fuel with
  | zero => exact fun _ _ _ _ _ => rfl
  | succ fuel ih =>
    intro callee arguments line m hreach
    refine callWith_congr (fun f m₁ hinvoked harity hdepth => ?_) line
    have hbody := hreach.step (.body hinvoked harity hdepth)
    rw [if_pos (hallowed _ hbody)]
    exact Stmt.executeAll_of_agreesBehind ih _ _ hbody

/-- An expression is evaluated alike whatever bodies do at points that its evaluation does not
reach. -/
theorem Expr.evaluate_guarded {fuel : Nat} {e : Expr} {m : Machine}
    (hallowed : ∀ q, Reaches ⟨fuel, .expression e, m⟩ q → allowed q)
    (beyond : List Stmt → Eval Flow) :
    e.evaluate (callGuarded allowed beyond fuel) m = evaluateAtFuel fuel e m :=
  e.evaluate_of_agreesBehind (agreesBehind_callGuarded hallowed beyond fuel) m .refl

/-- A statement is executed alike whatever bodies do at points that its execution does not reach. -/
theorem Stmt.execute_guarded {fuel : Nat} {s : Stmt} {m : Machine}
    (hallowed : ∀ q, Reaches ⟨fuel, .statement s, m⟩ q → allowed q)
    (beyond : List Stmt → Eval Flow) :
    s.execute (callGuarded allowed beyond fuel) fuel m = executeAtFuel fuel s m :=
  s.execute_of_agreesBehind (agreesBehind_callGuarded hallowed beyond fuel) m .refl

end

end Quill
