import Quill.Evaluation

/-!
# What every action has in common

Programs do everything through a few actions that are put together in a few ways. A property of
actions that the few have and that putting together keeps (`Eval.Compositional`) is a property of
evaluating any expression, executing any statement and calling any value
(`Compositional.evaluateAtFuel`, `Compositional.executeAtFuel`, `Compositional.callAtFuel`).

Such a property may speak of what an action does from every state, but not of the code or the values
at hand. What actions read of a state is never the sink, so that a property may compare runs whose
sinks differ.
-/

namespace Quill

namespace Eval

/-- The few actions have the property, and putting actions together keeps it. -/
structure Compositional (P : {α : Type} → Eval α → Prop) : Prop where
  pure {α : Type} (a : α) : P (pure a : Eval α)
  throw {α : Type} (stop : Stop) : P (throw stop : Eval α)
  bind {α β : Type} {x : Eval α} {f : α → Eval β} (hx : P x) (hf : ∀ a, P (f a)) : P (x >>= f)
  /-- The state is read, but not its sink. -/
  look {α : Type} {f : Machine → Eval α}
    (hblind : ∀ store scope depth sink sink',
      f ⟨store, scope, depth, sink⟩ = f ⟨store, scope, depth, sink'⟩)
    (hf : ∀ m, P (f m)) : P (get >>= f)
  withStore {α : Type} (f : Store → α × Store) : P (withStore f)
  printLine (v : Value) : P (printLine v)
  inScope {α : Type} {action : Eval α} (scope : ScopeId) (h : P action) : P (inScope scope action)
  deeper {α : Type} {action : Eval α} (h : P action) : P (deeper action)

namespace Compositional

variable {P : {α : Type} → Eval α → Prop} (hP : Compositional P)

include hP

/-! ## Actions -/

/-- Stopping for a fault has the property. -/
theorem fail {α : Type} (cause : FaultCause) (line : Nat) : P (fail cause line : Eval α) :=
  hP.throw _

/-- Going on with a result, or stopping for its fault, has the property. -/
theorem ofExcept {α : Type} (result : Except Fault α) : P (ofExcept result) := by
  cases result with
  | ok a => exact hP.pure a
  | error fault => exact hP.throw _

/-- Reading a variable has the property. -/
theorem readVariable (name : String) (line : Nat) : P (readVariable name line) := by
  have hread : Eval.readVariable name line = (get >>= fun m =>
      (m.store.get? m.scope name).elim (Eval.fail (.undefinedVariable name) line) Pure.pure) := by
    funext m
    show Eval.readVariable name line m =
      (m.store.get? m.scope name).elim (Eval.fail (.undefinedVariable name) line : Eval Value)
        Pure.pure m
    unfold Eval.readVariable
    cases m.store.get? m.scope name with
    | some v => rfl
    | none => rfl
  rw [hread]
  refine hP.look (fun _ _ _ _ _ => rfl) fun m => ?_
  cases m.store.get? m.scope name with
  | some v => exact hP.pure _
  | none => exact hP.fail _ _

/-- Assigning to a variable has the property. -/
theorem writeVariable (name : String) (v : Value) (line : Nat) : P (writeVariable name v line) := by
  refine hP.look (fun _ _ _ _ _ => rfl) fun m => hP.bind (hP.withStore _) fun found => ?_
  cases found with
  | true => exact hP.pure _
  | false => exact hP.fail _ _

/-- Declaring a variable has the property. -/
theorem declareVariable (name : String) (v : Value) : P (declareVariable name v) :=
  hP.look (f := fun m => Eval.withStore fun s => ((), s.define m.scope name v))
    (fun _ _ _ _ _ => rfl) fun _ => hP.withStore _

/-- A loop has the property if its condition and its body do. -/
theorem loopAtFuel {condition : Eval Value} {body : Eval Flow} (hcondition : P condition)
    (hbody : P body) (fuel : Nat) : P (loopAtFuel condition body fuel) := by
  induction fuel with
  | zero => exact hP.throw _
  | succ fuel ih =>
    refine hP.bind hcondition fun v => ?_
    split
    · refine hP.bind hbody fun flow => ?_
      cases flow with
      | normal => exact ih
      | returned v' => exact hP.pure _
    · exact hP.pure _

/-! ## Expressions -/

/-- Asking for an object has the property. -/
theorem objectOf (v : Value) (line : Nat) : P (objectOf v line) := by
  cases v with
  | object id => exact hP.pure id
  | _ => exact hP.fail _ _

/-- Reading a property of an object has it too. -/
theorem readProperty (id : ObjectId) (property : Name) : P (readProperty id property) := by
  refine hP.look (fun _ _ _ _ _ => rfl) fun m => ?_
  split
  · exact hP.fail _ _
  · split
    · exact hP.pure _
    · split
      · exact hP.bind (hP.withStore _) fun f => hP.pure _
      · exact hP.fail _ _

mutual

/-- Evaluating an expression has the property if calls do. -/
theorem expression {call : Caller} (hcalls : ∀ f arguments line, P (call f arguments line)) :
    (e : Expr) → P (e.evaluate call)
  | .literal value line => by
    rw [Expr.evaluate]
    exact hP.pure _
  | .unary operator operand => by
    rw [Expr.evaluate]
    exact hP.bind (expression hcalls operand) fun v => hP.ofExcept _
  | .binary left operator right => by
    rw [Expr.evaluate]
    refine hP.bind (expression hcalls left) fun a => ?_
    exact hP.bind (expression hcalls right) fun b => hP.ofExcept _
  | .group inner => by
    rw [Expr.evaluate]
    exact expression hcalls inner
  | .reference name => by
    rw [Expr.evaluate]
    exact hP.readVariable _ _
  | .assign name value => by
    rw [Expr.evaluate]
    refine hP.bind (expression hcalls value) fun v => ?_
    exact hP.bind (hP.writeVariable _ _ _) fun _ => hP.pure _
  | .call callee arguments line => by
    rw [Expr.evaluate]
    refine hP.bind (expression hcalls callee) fun f => ?_
    exact hP.bind (expressions hcalls arguments) fun values => hcalls f values line
  | .get object property => by
    rw [Expr.evaluate]
    refine hP.bind (expression hcalls object) fun v => ?_
    exact hP.bind (hP.objectOf v _) fun id => hP.readProperty id property
  | .set object property value => by
    rw [Expr.evaluate]
    refine hP.bind (expression hcalls object) fun target => ?_
    refine hP.bind (hP.objectOf target _) fun id => ?_
    refine hP.bind (expression hcalls value) fun v => ?_
    exact hP.bind (hP.withStore _) fun _ => hP.pure _
  | .this line => by
    rw [Expr.evaluate]
    exact hP.readVariable _ _

/-- Evaluating expressions in order has the property if calls do. -/
theorem expressions {call : Caller} (hcalls : ∀ f arguments line, P (call f arguments line)) :
    (es : List Expr) → P (Expr.evaluateAll call es)
  | [] => by
    rw [Expr.evaluateAll]
    exact hP.pure _
  | e :: rest => by
    rw [Expr.evaluateAll]
    refine hP.bind (expression hcalls e) fun v => ?_
    exact hP.bind (expressions hcalls rest) fun vs => hP.pure _

end

/-- Evaluating an expression that may be missing has the property if calls do. -/
theorem optionalExpression {call : Caller}
    (hcalls : ∀ f arguments line, P (call f arguments line)) (e : Option Expr) :
    P (Expr.evaluateOption call e) := by
  cases e with
  | none => exact hP.pure _
  | some e => exact hP.expression hcalls e

/-! ## Statements -/

/-- Declaring a function has the property. -/
theorem declareFunction (f : FunctionDecl) : P (declareFunction f) :=
  hP.look (fun _ _ _ _ _ => rfl) fun _ =>
    hP.bind (hP.withStore _) fun _ => hP.declareVariable _ _

/-- Declaring a class has the property. -/
theorem declareClass (c : ClassDecl) : P (declareClass c) :=
  hP.look (fun _ _ _ _ _ => rfl) fun _ =>
    hP.bind (hP.withStore _) fun _ => hP.declareVariable _ _

mutual

/-- Executing a statement has the property if calls do. -/
theorem statement {call : Caller} (hcalls : ∀ f arguments line, P (call f arguments line))
    (fuel : Nat) : (s : Stmt) → P (s.execute call fuel)
  | .expression value => by
    rw [Stmt.execute]
    exact hP.bind (hP.expression hcalls value) fun v => hP.pure _
  | .print value => by
    rw [Stmt.execute]
    refine hP.bind (hP.expression hcalls value) fun v => ?_
    exact hP.bind (hP.printLine v) fun _ => hP.pure _
  | .declare name initial => by
    rw [Stmt.execute]
    refine hP.bind (hP.optionalExpression hcalls initial) fun v => ?_
    exact hP.bind (hP.declareVariable _ _) fun _ => hP.pure _
  | .block body => by
    rw [Stmt.execute]
    refine hP.look (fun _ _ _ _ _ => rfl) fun m => hP.bind (hP.withStore _) fun scope => ?_
    exact hP.inScope scope (statements hcalls fuel body)
  | .branch condition thenBranch none => by
    rw [Stmt.execute]
    refine hP.bind (hP.expression hcalls condition) fun v => ?_
    split
    · exact statement hcalls fuel thenBranch
    · exact hP.pure _
  | .branch condition thenBranch (some elseBranch) => by
    rw [Stmt.execute]
    refine hP.bind (hP.expression hcalls condition) fun v => ?_
    split
    · exact statement hcalls fuel thenBranch
    · exact statement hcalls fuel elseBranch
  | .loop condition body => by
    rw [Stmt.execute]
    exact hP.loopAtFuel (hP.expression hcalls condition) (statement hcalls fuel body) fuel
  | .leave line value => by
    rw [Stmt.execute]
    exact hP.bind (hP.optionalExpression hcalls value) fun v => hP.pure _
  | .function f => by
    rw [Stmt.execute]
    exact hP.bind (hP.declareFunction f) fun _ => hP.pure _
  | .classOf c => by
    rw [Stmt.execute]
    exact hP.bind (hP.declareClass c) fun _ => hP.pure _

/-- Executing statements in order has the property if calls do. -/
theorem statements {call : Caller} (hcalls : ∀ f arguments line, P (call f arguments line))
    (fuel : Nat) : (body : List Stmt) → P (Stmt.executeAll call fuel body)
  | [] => by
    rw [Stmt.executeAll]
    exact hP.pure _
  | s :: rest => by
    rw [Stmt.executeAll]
    refine hP.bind (statement hcalls fuel s) fun flow => ?_
    cases flow with
    | normal => exact statements hcalls fuel rest
    | returned v => exact hP.pure _

end

/-! ## Calls -/

/-- Calling a function has the property if running its body does. -/
theorem callFunction {run : List Stmt → Eval Flow} (hrun : ∀ body, P (run body))
    (f : FunctionValue) (arguments : List Value) (line : Nat) :
    P (callFunction run f arguments line) := by
  unfold Quill.callFunction
  split
  · exact hP.fail _ _
  refine hP.look (fun _ _ _ _ _ => rfl) fun m => ?_
  split
  · exact hP.fail _ _
  refine hP.bind (hP.withStore _) fun scope => hP.bind (hP.withStore _) fun _ => ?_
  refine hP.bind (hP.deeper (hP.inScope scope (hrun _))) fun flow => ?_
  cases flow with
  | normal => exact hP.pure _
  | returned v => exact hP.pure _

/-- Calling a class has the property if running bodies does. -/
theorem construct {run : List Stmt → Eval Flow} (hrun : ∀ body, P (run body)) (c : ClassValue)
    (arguments : List Value) (line : Nat) : P (construct run c arguments line) := by
  unfold Quill.construct
  split
  · exact hP.fail _ _
  refine hP.bind (hP.withStore _) fun id => ?_
  split
  · exact hP.pure _
  · refine hP.bind (hP.withStore _) fun f => ?_
    exact hP.bind (hP.callFunction hrun f arguments line) fun _ => hP.pure _

/-- Calling a value has the property, by induction on the fuel. -/
theorem callAtFuel (fuel : Nat) (f : Value) (arguments : List Value) (line : Nat) :
    P (callAtFuel fuel f arguments line) := by
  induction fuel generalizing f arguments line with
  | zero => exact hP.throw _
  | succ fuel ih =>
    rw [Quill.callAtFuel]
    have hrun : ∀ body, P (Stmt.executeAll (Quill.callAtFuel fuel) fuel body) :=
      hP.statements ih fuel
    cases f with
    | function f => exact hP.callFunction hrun f arguments line
    | classValue c => exact hP.construct hrun c arguments line
    | _ => exact hP.fail _ _

/-- Evaluating an expression has the property, whatever is called in it. -/
theorem evaluateAtFuel (fuel : Nat) (e : Expr) : P (evaluateAtFuel fuel e) :=
  hP.expression (hP.callAtFuel fuel) e

/-- Executing a statement has the property, whatever is called in it. -/
theorem executeAtFuel (fuel : Nat) (s : Stmt) : P (executeAtFuel fuel s) :=
  hP.statement (hP.callAtFuel fuel) fuel s

/-- Executing the top level of a program has the property. -/
theorem runTopLevel (fuel : Nat) (body : List Stmt) : P (runTopLevel fuel body) := by
  induction body with
  | nil => exact hP.pure _
  | cons s rest ih =>
    refine hP.bind (hP.executeAtFuel fuel s) fun flow => ?_
    cases flow with
    | normal => exact ih
    | returned v => exact hP.pure _

end Compositional

end Eval

end Quill
