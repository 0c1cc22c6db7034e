import Quill.Fault
import Quill.Sink
import Quill.Store

/-!
# The machine

The state of a running program, and the few actions that read or change it. Everything that a
program does to its state, it does through these actions; each of them has an outcome and a new
state in any case, so that what a failed program has printed and changed stays.

The current scope and the number of open calls are part of the state. `Eval.inScope` and
`Eval.deeper` change them for the length of an action and set them back however it ends.
-/

namespace Quill

/-- The greatest number of open calls. -/
def maxCallDepth : Nat := 200

/-- The state of a running program. -/
structure Machine where
  /-- Scopes and objects. -/
  store : Store
  /-- The innermost scope. -/
  scope : ScopeId
  /-- The number of open calls. -/
  depth : Nat
  /-- Where the program prints to. -/
  sink : Sink

namespace Machine

/-- A fresh global scope as the innermost one, and no open call. Scopes and objects made before are
kept, because values may still reach them. -/
def restart (m : Machine) : Machine :=
  let (scope, store) := m.store.addGlobal
  { m with store := store, scope := scope, depth := 0 }

/-- A machine with nothing but a global scope. -/
def ofSink (sink : Sink) : Machine :=
  Machine.restart ⟨.empty, ⟨0⟩, 0, sink⟩

end Machine

/-- Why an evaluation has no value. -/
inductive Stop where
  /-- The program is at fault. -/
  | fault (fault : Fault)
  /-- What the program prints is not taken. -/
  | sink (fault : SinkFault)
  /-- The fuel was used up before the evaluation came to an end. -/
  | unfinished

/-- An action of a running program. -/
abbrev Eval (α : Type) := EStateM Stop Machine α

namespace Eval

/-- Stops for a fault of the program. -/
def fail {α : Type} (cause : FaultCause) (line : Nat) : Eval α :=
  throw (.fault ⟨cause, line⟩)

/-- Goes on with a result, or stops for its fault. -/
def ofExcept {α : Type} : Except Fault α → Eval α
  | .ok a => pure a
  | .error fault => throw (.fault fault)

/-- Changes the store. -/
def withStore {α : Type} (f : Store → α × Store) : Eval α := fun ⟨store, scope, depth, sink⟩ =>
  let (a, store) := f store
  .ok a ⟨store, scope, depth, sink⟩

/-! ## Scopes -/

/-- Makes a scope inside another. -/
def newScope (parent : ScopeId) : Eval ScopeId :=
  withStore fun s => s.addChild parent

/-- The value of a name. -/
def readVariable (name : String) (line : Nat) : Eval Value := fun m =>
  match m.store.get? m.scope name with
  | some value => .ok value m
  | none => .error (.fault ⟨.undefinedVariable name, line⟩) m

/-- Assigns to a name where it is bound. -/
def writeVariable (name : String) (value : Value) (line : Nat) : Eval Unit := do
  let scope := (← get).scope
  let found ← withStore fun s => s.assign scope name value
  if found then return () else fail (.undefinedVariable name) line

/-- Binds a name in the innermost scope. -/
def declareVariable (name : String) (value : Value) : Eval Unit :=
  modify fun m => { m with store := m.store.define m.scope name value }

/-- Runs an action in another scope and comes back from it however the action ends. -/
def inScope {α : Type} (scope : ScopeId) (action : Eval α) : Eval α := fun m =>
  let before := m.scope
  match action { m with scope := scope } with
  | .ok a m => .ok a { m with scope := before }
  | .error stop m => .error stop { m with scope := before }

/-- Runs an action inside one more call and closes the call however the action ends. -/
def deeper {α : Type} (action : Eval α) : Eval α := fun m =>
  match action { m with depth := m.depth + 1 } with
  | .ok a m => .ok a { m with depth := m.depth - 1 }
  | .error stop m => .error stop { m with depth := m.depth - 1 }

/-! ## Output -/

/-- Prints a value and ends the line. -/
def printLine (value : Value) : Eval Unit := fun ⟨store, scope, depth, sink⟩ =>
  match sink.write (store.display value ++ "\n").toUTF8 with
  | (sink, none) => .ok () ⟨store, scope, depth, sink⟩
  | (sink, some fault) => .error (.sink fault) ⟨store, scope, depth, sink⟩

/-- Passes on what was printed. This happens whether or not the run came to a good end, and a
failure to do so is what is then reported. -/
def flushing {α : Type} (action : Eval α) : Eval α := fun m =>
  match action m with
  | .error .unfinished m => .error .unfinished m
  | .ok a m =>
    match m.sink.flushFault? with
    | some fault => .error (.sink fault) m
    | none => .ok a m
  | .error stop m =>
    match m.sink.flushFault? with
    | some fault => .error (.sink fault) m
    | none => .error stop m

/-! ## Loops -/

/-- Repeats a body while a condition holds, for at most `fuel` rounds. Leaving the function from the
body ends the loop. -/
def loopAtFuel (condition : Eval Value) (body : Eval Flow) : (fuel : Nat) → Eval Flow
  | 0 => throw .unfinished
  | fuel + 1 => do
    let value ← condition
    if value.isTruthy then
      match ← body with
      | .normal => loopAtFuel condition body fuel
      | .returned value => return .returned value
    else return .normal

end Eval

end Quill
