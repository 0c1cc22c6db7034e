import Quill.Machine

/-!
# Evaluation

What programs do. Expressions and statements are evaluated by recursion on the tree; what a call
does is a parameter, `Caller`, because the body of a function is no part of the tree of its call.
The knot is tied by `callAtFuel`: a call runs the body with calls of less fuel.

Fuel bounds two things: how deep calls nest and how often a loop is repeated. Calls nest no deeper
than `maxCallDepth` in any case, so fuel beyond that is only ever used up by loops. An evaluation
that uses up its fuel stops as `Stop.unfinished`, which is no fault of the program.
-/

namespace Quill

/-- What calling a value with arguments does; the line is that of the call. -/
abbrev Caller := Value → List Value → Nat → Eval Value

/-! ## Expressions -/

/-- The object that a value is; other values have no properties. -/
def objectOf (value : Value) (line : Nat) : Eval ObjectId :=
  match value with
  | .object id => pure id
  | _ => Eval.fail .notAnInstance line

/-- The property of an object: a field, or else a method, which is made into a new function for this
object. -/
def readProperty (id : ObjectId) (property : Name) : Eval Value := do
  match (← get).store.object? id with
  | none => Eval.fail (.undefinedProperty property.text) property.line
  | some object =>
    match object.fields.get? property.text with
    | some value => return value
    | none =>
      match object.classOf.method? property.text with
      | some method =>
        return .function (← Eval.withStore fun s => s.bindMethod object.classOf method id)
      | none => Eval.fail (.undefinedProperty property.text) property.line

mutual

/-- Evaluates an expression. Operands and arguments are evaluated from left to right, and that an
object is needed is checked before the value of its property is evaluated. -/
def Expr.evaluate (call : Caller) : Expr → Eval Value
  | .literal value _ => pure (.ofLiteral value)
  | .unary operator operand => do
    let value ← operand.evaluate call
    Eval.ofExcept (applyUnary operator value)
  | .binary left operator right => do
    let a ← left.evaluate call
    let b ← right.evaluate call
    Eval.ofExcept (applyBinary operator a b)
  | .group inner => inner.evaluate call
  | .reference name => Eval.readVariable name.text name.line
  | .assign name value => do
    let v ← value.evaluate call
    Eval.writeVariable name.text v name.line
    return v
  | .call callee arguments line => do
    let f ← callee.evaluate call
    let values ← Expr.evaluateAll call arguments
    call f values line
  | .get object property => do
    let value ← object.evaluate call
    let id ← objectOf value property.line
    readProperty id property
  | .set object property value => do
    let target ← object.evaluate call
    let id ← objectOf target property.line
    let v ← value.evaluate call
    Eval.withStore fun s => ((), s.setField id property.text v)
    return v
  | .this line => Eval.readVariable receiverName line

/-- Evaluates expressions from left to right. -/
def Expr.evaluateAll (call : Caller) : List Expr → Eval (List Value)
  | [] => return []
  | e :: rest => do
    let value ← e.evaluate call
    let values ← Expr.evaluateAll call rest
    return value :: values

end

/-- Evaluates an expression that may be missing, and then has the value for none. -/
def Expr.evaluateOption (call : Caller) : Option Expr → Eval Value
  | none => return .nil
  | some e => e.evaluate call

/-! ## Statements -/

/-- Declares a function that closes over the current scope. -/
def declareFunction (declaration : FunctionDecl) : Eval Unit := do
  let scope := (← get).scope
  let f ← Eval.withStore fun s => s.addFunction declaration scope
  Eval.declareVariable declaration.name.text (.function f)

/-- Declares a class whose methods close over the current scope. -/
def declareClass (declaration : ClassDecl) : Eval Unit := do
  let scope := (← get).scope
  let c ← Eval.withStore fun s => s.addClass declaration scope
  Eval.declareVariable declaration.name.text (.classValue c)

mutual

/-- Executes a statement; a loop is repeated at most `fuel` times. -/
def Stmt.execute (call : Caller) (fuel : Nat) : Stmt → Eval Flow
  | .expression value => do
    let _ ← value.evaluate call
    return .normal
  | .print value => do
    let v ← value.evaluate call
    Eval.printLine v
    return .normal
  | .declare name initial => do
    let v ← Expr.evaluateOption call initial
    Eval.declareVariable name.text v
    return .normal
  | .block body => do
    let scope ← Eval.newScope (← get).scope
    Eval.inScope scope (Stmt.executeAll call fuel body)
  | .branch condition thenBranch none => do
    let v ← condition.evaluate call
    if v.isTruthy then thenBranch.execute call fuel else return .normal
  | .branch condition thenBranch (some elseBranch) => do
    let v ← condition.evaluate call
    if v.isTruthy then thenBranch.execute call fuel else elseBranch.execute call fuel
  | .loop condition body =>
    Eval.loopAtFuel (condition.evaluate call) (body.execute call fuel) fuel
  | .leave _ value => do
    let v ← Expr.evaluateOption call value
    return .returned v
  | .function declaration => do
    declareFunction declaration
    return .normal
  | .classOf declaration => do
    declareClass declaration
    return .normal

/-- Executes statements in order, until one of them leaves the function. -/
def Stmt.executeAll (call : Caller) (fuel : Nat) : List Stmt → Eval Flow
  | [] => return .normal
  | s :: rest => do
    match ← s.execute call fuel with
    | .normal => Stmt.executeAll call fuel rest
    | .returned value => return .returned value

end

/-! ## Calls -/

/-- Calls a function: the number of arguments is checked first, then the number of open calls. The
parameters are bound in a new scope inside the one that the function closes over. -/
def callFunction (run : List Stmt → Eval Flow) (f : FunctionValue) (arguments : List Value)
    (line : Nat) : Eval Value := do
  if arguments.length ≠ f.declaration.arity then
    Eval.fail (.arityMismatch f.declaration.arity arguments.length) line
  else if maxCallDepth ≤ (← get).depth then
    Eval.fail .stackOverflow line
  else
    let scope ← Eval.newScope f.closure
    let parameters := (f.declaration.params.map Name.text).zip arguments
    Eval.withStore fun s => ((), s.defineAll scope parameters)
    match ← Eval.deeper (Eval.inScope scope (run f.declaration.body)) with
    | .returned value => return value
    | .normal => return .nil

/-- Calls a class: a new object is made and its initializer, if there is one, is called on it. The
object is the result whatever the initializer does. -/
def construct (run : List Stmt → Eval Flow) (c : ClassValue) (arguments : List Value) (line : Nat) :
    Eval Value := do
  if arguments.length ≠ c.arity then
    Eval.fail (.arityMismatch c.arity arguments.length) line
  else
    let id ← Eval.withStore fun s => s.addObject c
    match c.initializer? with
    | none => return .object id
    | some method => do
      let f ← Eval.withStore fun s => s.bindMethod c method id
      let _ ← callFunction run f arguments line
      return .object id

/-- Calls a value, if it can be called, with a way to run the bodies of functions. -/
def callWith (run : List Stmt → Eval Flow) : Caller := fun callee arguments line =>
  match callee with
  | .function f => callFunction run f arguments line
  | .classValue c => construct run c arguments line
  | _ => Eval.fail .notCallable line

/-- Calls a value with so much fuel. -/
def callAtFuel : (fuel : Nat) → Caller
  | 0 => fun _ _ _ => throw .unfinished
  | fuel + 1 => callWith fun body => Stmt.executeAll (callAtFuel fuel) fuel body

/-! ## Programs -/

/-- Evaluates an expression with so much fuel. -/
def evaluateAtFuel (fuel : Nat) (e : Expr) : Eval Value :=
  e.evaluate (callAtFuel fuel)

/-- Executes a statement with so much fuel. -/
def executeAtFuel (fuel : Nat) (s : Stmt) : Eval Flow :=
  s.execute (callAtFuel fuel) fuel

/-- Executes what stands at the top level in order. Leaving a function that is not there ends the
program. -/
def runTopLevel (fuel : Nat) : List Stmt → Eval Unit
  | [] => return ()
  | s :: rest => do
    match ← executeAtFuel fuel s with
    | .normal => runTopLevel fuel rest
    | .returned _ => return ()

/-- Runs a program from a fresh global scope, and passes on what it printed. -/
def runAtFuel (fuel : Nat) (program : Program) : Eval Unit := fun m =>
  Eval.flushing (runTopLevel fuel program.declarations) m.restart

/-- Fuel that no run uses up in anyone's lifetime. -/
def ampleFuel : Nat := Nat.pow 2 62

end Quill
