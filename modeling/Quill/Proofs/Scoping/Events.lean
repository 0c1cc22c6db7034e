import Quill.Evaluation

/-!
# Events of a run

What a run does to the bindings of scopes that are there, in the order in which it does it:
variables, functions and classes are declared, and variables are assigned to. The events are read
off the evaluation itself: the events of a part are those that it has in the state in which the
evaluation comes to it, and there are none behind a part that stops. So the events of a tree follow
its evaluation case by case, and nothing is evaluated in a second way.

`Overwrites` is what the events are for: an assignment that meets a binding which was made by the
declaration of a function or class.

No event is left out. `Stmt.traced` says so for all statements in all states, and `Program.traced`
for programs: what a scope binds is the same afterwards as before, unless an event has changed it.
-/

namespace Quill

/-- Something that a run does to a binding. -/
inductive Event where
  /-- A variable is declared in a scope. -/
  | introduced (scope : ScopeId) (name : String)
  /-- A function or class is declared in a scope. -/
  | declared (scope : ScopeId) (name : String)
  /-- An assignment gives a new value to what the scope binds the name to. -/
  | assigned (scope : ScopeId) (name : Name)
deriving DecidableEq

/-- The scope and the name of the binding. -/
def Event.target : Event → ScopeId × String
  | introduced scope name => (scope, name)
  | declared scope name => (scope, name)
  | assigned scope name => (scope, name.text)

/-- The events of an action, by the state in which it starts. -/
abbrev Events := Machine → List Event

/-- The events of calling a value with arguments. -/
abbrev CallEvents := Value → List Value → Events

namespace Events

/-- Nothing happens to bindings. -/
def none : Events := fun _ => []

/-- The events of an action and then of what follows it, which starts where the action ends. -/
def andThen {α : Type} (first : Events) (action : Eval α) (rest : α → Events) : Events := fun m =>
  first m ++ match action m with
    | .ok a m' => rest a m'
    | .error _ _ => []

/-- An action with a result has its own events and then those of what follows. -/
theorem andThen_of_ok {α : Type} {first : Events} {action : Eval α} {rest : α → Events}
    {m m' : Machine} {a : α} (h : action m = .ok a m') :
    first.andThen action rest m = first m ++ rest a m' := by
  rw [andThen, h]

/-- An action that stops has its own events alone. -/
theorem andThen_of_error {α : Type} {first : Events} {action : Eval α} {rest : α → Events}
    {m m' : Machine} {stop : Stop} (h : action m = .error stop m') :
    first.andThen action rest m = first m := by
  rw [andThen, h, List.append_nil]

/-- Nothing follows. -/
theorem andThen_none {α : Type} (events : Events) (action : Eval α) :
    (events.andThen action fun _ => none) = events := by
  funext m
  cases haction : action m with
  | ok a m' => rw [andThen_of_ok haction, none, List.append_nil]
  | error stop m' => rw [andThen_of_error haction]

/-- A variable is declared in the innermost scope. -/
def ofVariable (name : String) : Events := fun m => [.introduced m.scope name]

/-- A function or class is declared in the innermost scope. -/
def ofDeclaration (name : String) : Events := fun m => [.declared m.scope name]

/-- A name is assigned to where it is bound, if it is. -/
def ofAssignment (name : Name) : Events := fun m =>
  match m.store.owner? m.scope name.text with
  | some owner => [.assigned owner name]
  | Option.none => []

/-- The events of what runs in another scope. -/
def inScope (scope : ScopeId) (events : Events) : Events := fun m =>
  events { m with scope := scope }

end Events

open Events (andThen)

/-! ## Expressions -/

mutual

/-- The events of an expression. -/
def Expr.events (call : Caller) (calls : CallEvents) : Expr → Events
  | .literal _ _ => .none
  | .unary _ operand => operand.events call calls
  | .binary left _ right =>
    (left.events call calls).andThen (left.evaluate call) fun _ => right.events call calls
  | .group inner => inner.events call calls
  | .reference _ => .none
  | .assign name value =>
    (value.events call calls).andThen (value.evaluate call) fun _ => .ofAssignment name
  | .call callee arguments _ =>
    (callee.events call calls).andThen (callee.evaluate call) fun f =>
      (Expr.listEvents call calls arguments).andThen (Expr.evaluateAll call arguments) fun values =>
        calls f values
  | .get object _ => object.events call calls
  | .set object property value =>
    (object.events call calls).andThen (object.evaluate call) fun target =>
      Events.none.andThen (objectOf target property.line) fun _ => value.events call calls
  | .this _ => .none

/-- The events of expressions from left to right. -/
def Expr.listEvents (call : Caller) (calls : CallEvents) : List Expr → Events
  | [] => .none
  | e :: rest =>
    (e.events call calls).andThen (e.evaluate call) fun _ => Expr.listEvents call calls rest

end

/-- The events of an expression that may be missing. -/
def Expr.optionEvents (call : Caller) (calls : CallEvents) : Option Expr → Events
  | none => .none
  | some e => e.events call calls

/-! ## Statements -/

/-- The events of a loop of at most `fuel` rounds. -/
def loopEvents (condition : Eval Value) (conditionEvents : Events) (body : Eval Flow)
    (bodyEvents : Events) : (fuel : Nat) → Events
  | 0 => .none
  | fuel + 1 =>
    conditionEvents.andThen condition fun value =>
      if value.isTruthy then
        bodyEvents.andThen body fun
          | .normal => loopEvents condition conditionEvents body bodyEvents fuel
          | .returned _ => .none
      else .none

mutual

/-- The events of a statement. -/
def Stmt.events (call : Caller) (calls : CallEvents) (fuel : Nat) : Stmt → Events
  | .expression value => value.events call calls
  | .print value => value.events call calls
  | .declare name initial =>
    (Expr.optionEvents call calls initial).andThen (Expr.evaluateOption call initial) fun _ =>
      .ofVariable name.text
  | .block body => fun m =>
    Events.none.andThen (Eval.newScope m.scope)
      (fun scope => .inScope scope (Stmt.listEvents call calls fuel body)) m
  | .branch condition thenBranch none =>
    (condition.events call calls).andThen (condition.evaluate call) fun v =>
      if v.isTruthy then thenBranch.events call calls fuel else .none
  | .branch condition thenBranch (some elseBranch) =>
    (condition.events call calls).andThen (condition.evaluate call) fun v =>
      if v.isTruthy then thenBranch.events call calls fuel else elseBranch.events call calls fuel
  | .loop condition body =>
    loopEvents (condition.evaluate call) (condition.events call calls) (body.execute call fuel)
      (body.events call calls fuel) fuel
  | .leave _ value => Expr.optionEvents call calls value
  | .function declaration => .ofDeclaration declaration.name.text
  | .classOf declaration => .ofDeclaration declaration.name.text

/-- The events of statements in order, until one of them leaves the function. -/
def Stmt.listEvents (call : Caller) (calls : CallEvents) (fuel : Nat) : List Stmt → Events
  | [] => .none
  | s :: rest =>
    (s.events call calls fuel).andThen (s.execute call fuel) fun
      | .normal => Stmt.listEvents call calls fuel rest
      | .returned _ => .none

end

/-! ## Calls and programs -/

/-- The state in which the body of a function runs: one more call is open, and the innermost scope
is a new one with the parameters. -/
def Machine.entering (m : Machine) (f : FunctionValue) (arguments : List Value) : Machine :=
  let (scope, store) := m.store.addChild f.closure
  { m with
    store := store.defineAll scope ((f.declaration.params.map Name.text).zip arguments)
    scope := scope
    depth := m.depth + 1 }

/-- The events of calling a function, if its body comes to be run. -/
def functionEvents (run : List Stmt → Events) (f : FunctionValue) (arguments : List Value) :
    Events := fun m =>
  if arguments.length ≠ f.declaration.arity then []
  else if maxCallDepth ≤ m.depth then []
  else run f.declaration.body (m.entering f arguments)

/-- The events of the initializer of a class, if there is one. -/
def initializerEvents (run : List Stmt → Events) (c : ClassValue) (arguments : List Value)
    (id : ObjectId) : Events :=
  match c.initializer? with
  | none => .none
  | some method =>
    Events.none.andThen (Eval.withStore fun s => s.bindMethod c method id) fun f =>
      functionEvents run f arguments

/-- The events of calling a class, which are those of its initializer. -/
def classEvents (run : List Stmt → Events) (c : ClassValue) (arguments : List Value) :
    Events := fun m =>
  if arguments.length ≠ c.arity then []
  else
    Events.none.andThen (Eval.withStore fun s => s.addObject c)
      (initializerEvents run c arguments) m

/-- The events of calling a value with so much fuel. -/
def callEventsAtFuel : (fuel : Nat) → CallEvents
  | 0 => fun _ _ => .none
  | fuel + 1 => fun callee arguments =>
    let run := fun body => Stmt.listEvents (callAtFuel fuel) (callEventsAtFuel fuel) fuel body
    match callee with
    | .function f => functionEvents run f arguments
    | .classValue c => classEvents run c arguments
    | _ => .none

/-- The events of a run of a program. -/
def Program.eventsAtFuel (fuel : Nat) (program : Program) : Events := fun m =>
  Stmt.listEvents (callAtFuel fuel) (callEventsAtFuel fuel) fuel program.declarations m.restart

/-- Among the events, an assignment to the name meets a binding of the scope that the declaration of
a function or class has made before. -/
def Overwrites (events : List Event) (scope : ScopeId) (name : Name) : Prop :=
  ∃ before after, events = before ++ .assigned scope name :: after
    ∧ .declared scope name.text ∈ before

/-! ## How actions run -/

section

variable {α β : Type}

/-- What follows a result goes on from the state that it left. -/
theorem Eval.bind_eq_of_ok {x : Eval α} {f : α → Eval β} {m m' : Machine} {a : α}
    (h : x m = .ok a m') : (x >>= f) m = f a m' := by
  show EStateM.bind x f m = f a m'
  simp only [EStateM.bind, h]

/-- What follows a stop is not run. -/
theorem Eval.bind_eq_of_error {x : Eval α} {f : α → Eval β} {m m' : Machine} {stop : Stop}
    (h : x m = .error stop m') : (x >>= f) m = .error stop m' := by
  show EStateM.bind x f m = .error stop m'
  simp only [EStateM.bind, h]

end


/-- What assigning to a name does, by the scope that binds it. -/
theorem writeVariable_eq (name : String) (v : Value) (line : Nat) (m : Machine) :
    Eval.writeVariable name v line m =
      match m.store.owner? m.scope name with
      | some owner => .ok () { m with store := m.store.define owner name v }
      | none => .error (.fault ⟨.undefinedVariable name, line⟩) m := by
  have hget : (get : Eval Machine) m = .ok m m := rfl
  unfold Eval.writeVariable
  rw [Eval.bind_eq_of_ok hget]
  cases howner : m.store.owner? m.scope name with
  | none =>
    have hassign : Eval.withStore (fun s => s.assign m.scope name v) m = .ok false m := by
      show EStateM.Result.ok (m.store.assign m.scope name v).1
        { m with store := (m.store.assign m.scope name v).2 } = _
      rw [Store.assign, howner]
    rw [Eval.bind_eq_of_ok hassign]
    rfl
  | some owner =>
    have hassign : Eval.withStore (fun s => s.assign m.scope name v) m =
        .ok true { m with store := m.store.define owner name v } := by
      show EStateM.Result.ok (m.store.assign m.scope name v).1
        { m with store := (m.store.assign m.scope name v).2 } = _
      rw [Store.assign, howner]
    rw [Eval.bind_eq_of_ok hassign]
    rfl

/-- Printing changes the sink and nothing else. -/
theorem printLine_eq (v : Value) (m : Machine) : ∃ sink,
    Eval.printLine v m = .ok () { m with sink := sink }
      ∨ ∃ fault, Eval.printLine v m = .error (.sink fault) { m with sink := sink } := by
  obtain ⟨store, scope, depth, sink⟩ := m
  rcases hwrite : sink.write (store.display v ++ "\n").toUTF8 with ⟨sink', fault⟩
  refine ⟨sink', ?_⟩
  rw [Eval.printLine, hwrite]
  cases fault with
  | none => exact .inl rfl
  | some fault => exact .inr ⟨fault, rfl⟩

/-- An action inside one more call and in another scope. Both are left however it ends. -/
theorem deeper_inScope_eq {α : Type} (scope : ScopeId) (action : Eval α) (m : Machine) :
    Eval.deeper (Eval.inScope scope action) m =
      match action { m with scope := scope, depth := m.depth + 1 } with
      | .ok a m' => .ok a { m' with scope := m.scope, depth := m'.depth - 1 }
      | .error stop m' => .error stop { m' with scope := m.scope, depth := m'.depth - 1 } := by
  unfold Eval.deeper Eval.inScope
  dsimp only
  cases action { m with scope := scope, depth := m.depth + 1 } with
  | ok a m' => rfl
  | error stop m' => rfl

/-- The events of calling a class with the right number of arguments. -/
theorem classEvents_eq (run : List Stmt → Events) {c : ClassValue} {arguments : List Value}
    (h : arguments.length = c.arity) (m : Machine) :
    classEvents run c arguments m =
      Events.none.andThen (Eval.withStore fun s => s.addObject c)
        (initializerEvents run c arguments) m := by
  rw [classEvents, if_neg (not_not_intro h)]

/-- The events of calling a function with the right number of arguments, if it may be called. -/
theorem functionEvents_eq (run : List Stmt → Events) {f : FunctionValue} {arguments : List Value}
    (h : arguments.length = f.declaration.arity) {m : Machine} (hdepth : ¬maxCallDepth ≤ m.depth) :
    functionEvents run f arguments m = run f.declaration.body (m.entering f arguments) := by
  rw [functionEvents, if_neg (not_not_intro h), if_neg hdepth]

/-- What calling a function does, by the state in which its body runs. -/
theorem callFunction_eq (run : List Stmt → Eval Flow) (f : FunctionValue) (arguments : List Value)
    (line : Nat) (m : Machine) :
    callFunction run f arguments line m =
      if arguments.length ≠ f.declaration.arity then
        .error (.fault ⟨.arityMismatch f.declaration.arity arguments.length, line⟩) m
      else if maxCallDepth ≤ m.depth then .error (.fault ⟨.stackOverflow, line⟩) m
      else
        match run f.declaration.body (m.entering f arguments) with
        | .ok (.returned value) m' =>
          .ok value { m' with scope := m.scope, depth := m'.depth - 1 }
        | .ok .normal m' => .ok .nil { m' with scope := m.scope, depth := m'.depth - 1 }
        | .error stop m' => .error stop { m' with scope := m.scope, depth := m'.depth - 1 } := by
  unfold callFunction
  split
  · rfl
  · show (if maxCallDepth ≤ m.depth then _ else _ : Eval Value) m = _
    split
    · rfl
    · show EStateM.bind (Eval.deeper (Eval.inScope _ (run f.declaration.body))) _
        { m with store := (m.entering f arguments).store } = _
      have hentering : (⟨(m.entering f arguments).store, ⟨m.store.scopes.size⟩, m.depth + 1, m.sink⟩
          : Machine) = m.entering f arguments := rfl
      unfold EStateM.bind
      rw [deeper_inScope_eq]
      dsimp only
      rw [hentering]
      cases run f.declaration.body (m.entering f arguments) with
      | error stop m' => rfl
      | ok flow m' =>
        cases flow with
        | normal => rfl
        | returned value => rfl

/-! ## What operators come to -/

/-- A plain value, or a fault that is neither about a variable nor about the number of calls. -/
def IsPlain : Except Fault Value → Prop
  | .ok (.function _) => False
  | .ok (.classValue _) => False
  | .ok (.object _) => False
  | .ok _ => True
  | .error fault => fault.cause ≠ .stackOverflow ∧ ∀ name, fault.cause ≠ .undefinedVariable name

/-- Operators before an operand come to plain values. -/
theorem isPlain_applyUnary (operator : Token) (v : Value) : IsPlain (applyUnary operator v) := by
  unfold applyUnary
  split
  · split
    · trivial
    · exact ⟨nofun, nofun⟩
  · trivial
  · exact ⟨nofun, nofun⟩

/-- An operator on numbers is plain if what it does with them is. -/
theorem isPlain_onNumbers (line : Nat) (left right : Value)
    {f : Number → Number → Except Fault Value} (hf : ∀ a b, IsPlain (f a b)) :
    IsPlain (onNumbers line left right f) := by
  unfold onNumbers
  split
  · exact hf _ _
  · exact ⟨nofun, nofun⟩

/-- Operators between operands come to plain values. -/
theorem isPlain_applyBinary (operator : Token) (left right : Value) :
    IsPlain (applyBinary operator left right) := by
  unfold applyBinary
  dsimp only
  split
  case h_1 =>
    split
    · trivial
    · trivial
    · exact ⟨nofun, nofun⟩
  case h_4 =>
    refine isPlain_onNumbers _ _ _ fun a b => ?_
    split
    · exact ⟨nofun, nofun⟩
    · trivial
  case h_9 => trivial
  case h_10 => trivial
  case h_11 => exact ⟨nofun, nofun⟩
  all_goals exact isPlain_onNumbers _ _ _ fun _ _ => trivial

/-! ## No event is left out -/

/-- Scopes are only added, and what they bind changes only by the events. -/
structure Accounts (s : Store) (events : List Event) (s' : Store) : Prop where
  size : s.scopes.size ≤ s'.scopes.size
  own : ∀ {id key}, id.index < s.scopes.size → (id, key) ∉ events.map Event.target →
    s'.own? id key = s.own? id key

namespace Accounts

variable {s s' s'' : Store} {events first second : List Event}

/-- Nothing has to be accounted for where the scopes stay the same. -/
theorem of_scopes_eq (h : s'.scopes = s.scopes) : Accounts s events s' where
  size := Nat.le_of_eq (by rw [h])
  own _ _ := by rw [Store.own?, Store.own?, h]

/-- Events account for what is done one after another. -/
theorem trans (h : Accounts s first s') (h' : Accounts s' second s'') :
    Accounts s (first ++ second) s'' where
  size := Nat.le_trans h.size h'.size
  own := by
    intro id key hid hkey
    rw [List.map_append, List.mem_append, not_or] at hkey
    rw [h'.own (Nat.lt_of_lt_of_le hid h.size) hkey.2, h.own hid hkey.1]

/-- What does not touch the scopes needs no events. -/
theorem trans_scopes_eq (h : Accounts s events s') (heq : s''.scopes = s'.scopes) :
    Accounts s events s'' := by
  rw [← List.append_nil events]
  exact h.trans (.of_scopes_eq heq)

/-- A binding is made, perhaps with an identity taken for its value. -/
theorem define (heq : s'.scopes = s.scopes) {id : ScopeId} {name : String}
    (h : (id, name) ∈ events.map Event.target) (v : Value) :
    Accounts s events (s'.define id name v) where
  size := by simp [heq]
  own := by
    intro other key hlt hkey
    rw [Store.own?_define, if_neg]
    · rw [Store.own?, Store.own?, heq]
    · rintro ⟨hindex, -, rfl⟩
      obtain ⟨i⟩ := id
      obtain ⟨j⟩ := other
      cases hindex
      exact hkey h

/-- A scope comes in, with bindings of its own. -/
theorem newScope (s : Store) (around : List ScopeId) (bindings : List (String × Value)) :
    Accounts s [] ((s.addScope around).2.defineAll ⟨s.scopes.size⟩ bindings) where
  size := by simp
  own := by
    intro id key hid _
    have hne : id ≠ ⟨s.scopes.size⟩ := by
      rintro rfl
      exact Nat.lt_irrefl _ hid
    rw [Store.own?_defineAll_of_ne _ hne, s.own?_addScope around hid]

end Accounts

/-- The events of the action account for what it does, however it ends. -/
def Traced {α : Type} (m : Machine) (action : Eval α) (events : Events) : Prop :=
  match action m with
  | .ok _ m' => Accounts m.store (events m) m'.store
  | .error _ m' => Accounts m.store (events m) m'.store

namespace Traced

variable {α β : Type} {m : Machine}

/-- An action with a result is traced by events that account for it. -/
theorem of_ok {action : Eval α} {events : Events} {a : α} {m' : Machine} (hok : action m = .ok a m')
    (h : Accounts m.store (events m) m'.store) : Traced m action events := by
  rw [Traced, hok]
  exact h

/-- An action that stops is traced by events that account for it. -/
theorem of_error {action : Eval α} {events : Events} {stop : Stop} {m' : Machine}
    (herror : action m = .error stop m') (h : Accounts m.store (events m) m'.store) :
    Traced m action events := by
  rw [Traced, herror]
  exact h

/-- Only what an action does from the state matters. -/
theorem of_eq {action action' : Eval α} {events : Events} (heq : action m = action' m)
    (h : Traced m action' events) : Traced m action events := by
  rw [Traced, heq]
  exact h

/-- Only the events from the state matter. -/
theorem of_events {action : Eval α} {events events' : Events} (heq : events m = events' m)
    (h : Traced m action events') : Traced m action events := by
  rw [Traced, heq]
  exact h

/-- Yielding a value changes no binding, so any events account for it. -/
theorem pure (a : α) (events : Events) : Traced m (pure a) events :=
  of_ok rfl (.of_scopes_eq rfl)

/-- Stopping changes no binding, so any events account for it. -/
theorem throw (stop : Stop) (events : Events) : Traced m (throw stop : Eval α) events :=
  of_error rfl (.of_scopes_eq rfl)

/-- One action after another is traced by their events in order. -/
theorem bind {x : Eval α} {f : α → Eval β} {first : Events} {rest : α → Events}
    (hx : Traced m x first) (hf : ∀ a m', Traced m' (f a) (rest a)) :
    Traced m (x >>= f) (first.andThen x rest) := by
  unfold Traced at hx
  cases haction : x m with
  | error stop m' =>
    rw [haction] at hx
    refine of_error (Eval.bind_eq_of_error haction) ?_
    rw [Events.andThen_of_error haction]
    exact hx
  | ok a m' =>
    rw [haction] at hx
    have hrest := hf a m'
    unfold Traced at hrest ⊢
    rw [Eval.bind_eq_of_ok haction, Events.andThen_of_ok haction]
    cases hf' : f a m' with
    | ok b m'' =>
      rw [hf'] at hrest
      exact hx.trans hrest
    | error stop m'' =>
      rw [hf'] at hrest
      exact hx.trans hrest

/-- An action without events after another. -/
theorem bind_none {x : Eval α} {f : α → Eval β} {events : Events} (hx : Traced m x events)
    (hf : ∀ a m', Traced m' (f a) .none) : Traced m (x >>= f) events := by
  rw [← Events.andThen_none events x]
  exact hx.bind hf

/-- An action that only changes the store. -/
theorem withStore {f : Store → α × Store} {events : Events}
    (h : Accounts m.store (events m) (f m.store).2) : Traced m (Eval.withStore f) events :=
  of_ok rfl h

/-- What runs in another scope is traced by its events there. -/
theorem inScope {scope : ScopeId} {action : Eval α} {events : Events}
    (h : Traced { m with scope := scope } action events) :
    Traced m (Eval.inScope scope action) (.inScope scope events) := by
  unfold Traced at h ⊢
  unfold Eval.inScope Events.inScope
  dsimp only
  cases haction : action { m with scope := scope } with
  | ok a m' =>
    rw [haction] at h
    exact h
  | error stop m' =>
    rw [haction] at h
    exact h

end Traced

section

variable {m : Machine}

/-- Reading a variable changes no binding. -/
theorem traced_readVariable (name : String) (line : Nat) :
    Traced m (Eval.readVariable name line) .none := by
  cases hget : m.store.get? m.scope name with
  | some v => exact .of_ok (by rw [Eval.readVariable, hget]) (.of_scopes_eq rfl)
  | none => exact .of_error (by rw [Eval.readVariable, hget]) (.of_scopes_eq rfl)

/-- Assigning to a variable changes the binding that it finds, and only this. -/
theorem traced_writeVariable (name : Name) (v : Value) :
    Traced m (Eval.writeVariable name.text v name.line) (.ofAssignment name) := by
  have hwrite := writeVariable_eq name.text v name.line m
  cases howner : m.store.owner? m.scope name.text with
  | none =>
    rw [howner] at hwrite
    exact .of_error hwrite (.of_scopes_eq rfl)
  | some owner =>
    rw [howner] at hwrite
    refine .of_ok hwrite (.define rfl ?_ v)
    rw [Events.ofAssignment, howner]
    exact List.mem_cons_self

/-- Operators change no binding. -/
theorem traced_ofExcept (result : Except Fault Value) :
    Traced m (Eval.ofExcept result) .none := by
  cases result with
  | ok v => exact .pure v _
  | error fault => exact .throw _ _

/-- Asking for an object changes no binding. -/
theorem traced_objectOf (v : Value) (line : Nat) : Traced m (objectOf v line) .none := by
  cases v with
  | object id => exact .pure id _
  | _ => exact .throw _ _

/-- Binding a method makes a scope and changes no binding that was there. -/
theorem traced_bindMethod (c : ClassValue) (method : FunctionDecl) (id : ObjectId) :
    Traced m (Eval.withStore fun s => s.bindMethod c method id) .none := by
  have hnew := Accounts.newScope m.store (m.store.chain c.scope) [(receiverName, .object id)]
  exact .withStore (hnew.trans_scopes_eq rfl)

/-- Reading a property changes no binding that was there. -/
theorem traced_readProperty (id : ObjectId) (property : Name) :
    Traced m (readProperty id property) .none := by
  have hget : (get : Eval Machine) m = .ok m m := rfl
  refine .of_eq (Eval.bind_eq_of_ok hget) ?_
  cases hobject : m.store.object? id with
  | none => exact .throw _ _
  | some object =>
    cases hfield : object.fields.get? property.text with
    | some v => simpa only [hfield] using .pure v _
    | none =>
      cases hmethod : object.classOf.method? property.text with
      | none => simpa only [hfield, hmethod] using .throw _ _
      | some method =>
        simp only [hfield, hmethod]
        exact (traced_bindMethod _ method id).bind_none fun f m' => .pure _ _

/-- Declaring a variable changes a binding that has to be among the events. -/
theorem traced_declareVariable {name : String} {v : Value} {events : Events}
    (h : (m.scope, name) ∈ (events m).map Event.target) :
    Traced m (Eval.declareVariable name v) events :=
  .of_ok rfl (.define rfl h v)

/-- Printing changes no binding. -/
theorem traced_printLine (v : Value) : Traced m (Eval.printLine v) .none := by
  obtain ⟨sink, hok | ⟨fault, herror⟩⟩ := printLine_eq v m
  · exact .of_ok hok (.of_scopes_eq rfl)
  · exact .of_error herror (.of_scopes_eq rfl)

end

/-- The events of calls account for what they do. -/
def CallsTraced (call : Caller) (calls : CallEvents) : Prop :=
  ∀ (m : Machine) (f : Value) (arguments : List Value) (line : Nat),
    Traced m (call f arguments line) (calls f arguments)

mutual

/-- The events of an expression account for what it does, if those of calls do. -/
theorem Expr.traced {call : Caller} {calls : CallEvents} (hcalls : CallsTraced call calls) :
    (e : Expr) → ∀ m, Traced m (e.evaluate call) (e.events call calls)
  | .literal value line, m => by
    rw [Expr.evaluate, Expr.events]
    exact .pure _ _
  | .unary operator operand, m => by
    rw [Expr.evaluate, Expr.events]
    exact (Expr.traced hcalls operand m).bind_none fun v m' => traced_ofExcept _
  | .binary left operator right, m => by
    rw [Expr.evaluate, Expr.events]
    refine (Expr.traced hcalls left m).bind fun a m₁ => ?_
    exact (Expr.traced hcalls right m₁).bind_none fun b m₂ => traced_ofExcept _
  | .group inner, m => by
    rw [Expr.evaluate, Expr.events]
    exact Expr.traced hcalls inner m
  | .reference name, m => by
    rw [Expr.evaluate, Expr.events]
    exact traced_readVariable _ _
  | .assign name value, m => by
    rw [Expr.evaluate, Expr.events]
    refine (Expr.traced hcalls value m).bind fun v m₁ => ?_
    exact (traced_writeVariable name v).bind_none fun _ m₂ => .pure _ _
  | .call callee arguments line, m => by
    rw [Expr.evaluate, Expr.events]
    refine (Expr.traced hcalls callee m).bind fun f m₁ => ?_
    exact (Expr.listTraced hcalls arguments m₁).bind fun values m₂ => hcalls m₂ f values line
  | .get object property, m => by
    rw [Expr.evaluate, Expr.events]
    refine (Expr.traced hcalls object m).bind_none fun v m₁ => ?_
    exact (traced_objectOf v _).bind_none fun id m₂ => traced_readProperty id property
  | .set object property value, m => by
    rw [Expr.evaluate, Expr.events]
    refine (Expr.traced hcalls object m).bind fun target m₁ => ?_
    refine (traced_objectOf target _).bind fun id m₂ => ?_
    refine (Expr.traced hcalls value m₂).bind_none fun v m₃ => ?_
    have hset : Traced m₃ (Eval.withStore fun s => ((), s.setField id property.text v)) .none :=
      .withStore (.of_scopes_eq rfl)
    exact hset.bind_none fun _ m₄ => .pure _ _
  | .this line, m => by
    rw [Expr.evaluate, Expr.events]
    exact traced_readVariable _ _

/-- The events of expressions account for what they do, if those of calls do. -/
theorem Expr.listTraced {call : Caller} {calls : CallEvents} (hcalls : CallsTraced call calls) :
    (es : List Expr) → ∀ m, Traced m (Expr.evaluateAll call es) (Expr.listEvents call calls es)
  | [], m => by
    rw [Expr.evaluateAll, Expr.listEvents]
    exact .pure _ _
  | e :: rest, m => by
    rw [Expr.evaluateAll, Expr.listEvents]
    refine (Expr.traced hcalls e m).bind fun v m₁ => ?_
    exact (Expr.listTraced hcalls rest m₁).bind_none fun vs m₂ => .pure _ _

end

/-- The events of an expression that may be missing account for what it does. -/
theorem Expr.optionTraced {call : Caller} {calls : CallEvents} (hcalls : CallsTraced call calls)
    (e : Option Expr) (m : Machine) :
    Traced m (Expr.evaluateOption call e) (Expr.optionEvents call calls e) := by
  cases e with
  | none => exact .pure _ _
  | some e => exact Expr.traced hcalls e m

/-- The events of a loop account for what its rounds do. -/
theorem traced_loopAtFuel {condition : Eval Value} {conditionEvents : Events} {body : Eval Flow}
    {bodyEvents : Events} (hcondition : ∀ m, Traced m condition conditionEvents)
    (hbody : ∀ m, Traced m body bodyEvents) : ∀ fuel m,
      Traced m (Eval.loopAtFuel condition body fuel)
        (loopEvents condition conditionEvents body bodyEvents fuel)
  | 0, _ => .throw _ _
  | fuel + 1, m => by
    rw [Eval.loopAtFuel, loopEvents]
    refine (hcondition m).bind fun v m₁ => ?_
    cases v.isTruthy with
    | false => exact .pure _ _
    | true =>
      refine (hbody m₁).bind fun flow m₂ => ?_
      cases flow with
      | normal => exact traced_loopAtFuel hcondition hbody fuel m₂
      | returned v' => exact .pure _ _

/-- Declaring a function changes the binding of its name. -/
theorem traced_declareFunction (m : Machine) (f : FunctionDecl) :
    Traced m (declareFunction f) (.ofDeclaration f.name.text) := by
  have hscopes : (m.store.addFunction f m.scope).2.scopes = m.store.scopes := rfl
  exact .of_ok rfl (.define hscopes List.mem_cons_self _)

/-- Declaring a class changes the binding of its name. -/
theorem traced_declareClass (m : Machine) (c : ClassDecl) :
    Traced m (declareClass c) (.ofDeclaration c.name.text) := by
  have hscopes : (m.store.addClass c m.scope).2.scopes = m.store.scopes := rfl
  exact .of_ok rfl (.define hscopes List.mem_cons_self _)

mutual

/-- What a statement changes is among its events. -/
theorem Stmt.traced {call : Caller} {calls : CallEvents} (hcalls : CallsTraced call calls)
    (fuel : Nat) : (s : Stmt) → ∀ m, Traced m (s.execute call fuel) (s.events call calls fuel)
  | .expression value, m => by
    rw [Stmt.execute, Stmt.events]
    exact (Expr.traced hcalls value m).bind_none fun v m₁ => .pure _ _
  | .print value, m => by
    rw [Stmt.execute, Stmt.events]
    refine (Expr.traced hcalls value m).bind_none fun v m₁ => ?_
    exact (traced_printLine v).bind_none fun _ m₂ => .pure _ _
  | .declare name initial, m => by
    rw [Stmt.execute, Stmt.events]
    refine (Expr.optionTraced hcalls initial m).bind fun v m₁ => ?_
    exact (traced_declareVariable List.mem_cons_self).bind_none fun _ m₂ => .pure _ _
  | .block body, m => by
    rw [Stmt.execute, Stmt.events]
    have hget : (get : Eval Machine) m = .ok m m := rfl
    refine .of_eq (Eval.bind_eq_of_ok hget) ?_
    have hnew : Traced m (Eval.newScope m.scope) .none := .withStore (.newScope _ _ [])
    exact hnew.bind fun scope m₁ => .inScope (Stmt.listTraced hcalls fuel body _)
  | .branch condition thenBranch none, m => by
    rw [Stmt.execute, Stmt.events]
    refine (Expr.traced hcalls condition m).bind fun v m₁ => ?_
    cases v.isTruthy with
    | false => exact .pure _ _
    | true => exact Stmt.traced hcalls fuel thenBranch m₁
  | .branch condition thenBranch (some elseBranch), m => by
    rw [Stmt.execute, Stmt.events]
    refine (Expr.traced hcalls condition m).bind fun v m₁ => ?_
    cases v.isTruthy with
    | false => exact Stmt.traced hcalls fuel elseBranch m₁
    | true => exact Stmt.traced hcalls fuel thenBranch m₁
  | .loop condition body, m => by
    rw [Stmt.execute, Stmt.events]
    exact traced_loopAtFuel (Expr.traced hcalls condition) (Stmt.traced hcalls fuel body) fuel m
  | .leave line value, m => by
    rw [Stmt.execute, Stmt.events]
    exact (Expr.optionTraced hcalls value m).bind_none fun v m₁ => .pure _ _
  | .function f, m => by
    rw [Stmt.execute, Stmt.events]
    exact (traced_declareFunction m f).bind_none fun _ m₁ => .pure _ _
  | .classOf c, m => by
    rw [Stmt.execute, Stmt.events]
    exact (traced_declareClass m c).bind_none fun _ m₁ => .pure _ _

/-- The events of statements account for what they do, if those of calls do. -/
theorem Stmt.listTraced {call : Caller} {calls : CallEvents} (hcalls : CallsTraced call calls)
    (fuel : Nat) : (body : List Stmt) → ∀ m,
      Traced m (Stmt.executeAll call fuel body) (Stmt.listEvents call calls fuel body)
  | [], m => by
    rw [Stmt.executeAll, Stmt.listEvents]
    exact .pure _ _
  | s :: rest, m => by
    rw [Stmt.executeAll, Stmt.listEvents]
    refine (Stmt.traced hcalls fuel s m).bind fun flow m₁ => ?_
    cases flow with
    | normal => exact Stmt.listTraced hcalls fuel rest m₁
    | returned v => exact .pure _ _

end

/-- The events of a function are those of its body in a new scope. -/
theorem traced_callFunction {run : List Stmt → Eval Flow} {runEvents : List Stmt → Events}
    (hrun : ∀ body m, Traced m (run body) (runEvents body)) (f : FunctionValue)
    (arguments : List Value) (line : Nat) (m : Machine) :
    Traced m (callFunction run f arguments line) (functionEvents runEvents f arguments) := by
  have hcall := callFunction_eq run f arguments line m
  by_cases harity : arguments.length = f.declaration.arity
  case neg =>
    rw [if_pos harity] at hcall
    exact .of_error hcall (.of_scopes_eq rfl)
  rw [if_neg (not_not_intro harity)] at hcall
  by_cases hdepth : maxCallDepth ≤ m.depth
  · rw [if_pos hdepth] at hcall
    exact .of_error hcall (.of_scopes_eq rfl)
  rw [if_neg hdepth] at hcall
  have hevents := functionEvents_eq runEvents harity hdepth
  have henter : Accounts m.store [] (m.entering f arguments).store := .newScope ..
  have hbody := hrun f.declaration.body (m.entering f arguments)
  unfold Traced at hbody
  rw [← hevents] at hbody
  cases hrun' : run f.declaration.body (m.entering f arguments) with
  | error stop m' =>
    rw [hrun'] at hcall hbody
    exact .of_error hcall (henter.trans hbody)
  | ok flow m' =>
    rw [hrun'] at hcall hbody
    cases flow with
    | normal => exact .of_ok hcall (henter.trans hbody)
    | returned v => exact .of_ok hcall (henter.trans hbody)

/-- The events of a class are those of its initializer, if it has one. -/
theorem traced_construct {run : List Stmt → Eval Flow} {runEvents : List Stmt → Events}
    (hrun : ∀ body m, Traced m (run body) (runEvents body)) (c : ClassValue)
    (arguments : List Value) (line : Nat) (m : Machine) :
    Traced m (construct run c arguments line) (classEvents runEvents c arguments) := by
  by_cases harity : arguments.length = c.arity
  case neg =>
    rw [construct, if_pos harity]
    exact .throw _ _
  rw [construct, if_neg (not_not_intro harity)]
  refine .of_events (classEvents_eq runEvents harity m) ?_
  have hobject : Traced m (Eval.withStore fun s => s.addObject c) .none :=
    .withStore (.of_scopes_eq rfl)
  refine hobject.bind fun id m₁ => ?_
  rw [initializerEvents]
  cases c.initializer? with
  | none => exact .pure _ _
  | some method =>
    refine (traced_bindMethod c method id).bind fun f m₂ => ?_
    exact (traced_callFunction hrun f arguments line m₂).bind_none fun v m₃ => .pure _ _

/-- What calls change is among their events, however much fuel there is. -/
theorem callsTraced (fuel : Nat) : CallsTraced (callAtFuel fuel) (callEventsAtFuel fuel) := by
  induction fuel with
  | zero => exact fun _ _ _ _ => .throw _ _
  | succ fuel ih =>
    intro m f arguments line
    rw [callAtFuel, callEventsAtFuel]
    cases f with
    | function f => exact traced_callFunction (Stmt.listTraced ih fuel) f arguments line m
    | classValue c => exact traced_construct (Stmt.listTraced ih fuel) c arguments line m
    | _ => exact .throw _ _

/-! ## Programs and their events -/

/-- Passing on what was printed hides faults and makes none of its own. -/
theorem Eval.eq_error_of_flushing {α : Type} {action : Eval α} {m m' : Machine} {fault : Fault}
    (h : Eval.flushing action m = .error (.fault fault) m') :
    action m = .error (.fault fault) m' := by
  unfold Eval.flushing at h
  cases haction : action m with
  | ok a m₁ =>
    rw [haction] at h
    dsimp only at h
    split at h <;> cases h
  | error stop m₁ =>
    rw [haction] at h
    cases stop with
    | unfinished => cases h
    | sink fault' =>
      dsimp only at h
      split at h <;> cases h
    | fault fault' =>
      dsimp only at h
      split at h
      · cases h
      · cases h
        rfl

/-- The fault that a run ends with, if it does. -/
def faultAtFuel? (fuel : Nat) (program : Program) (m : Machine) : Option Fault :=
  match runAtFuel fuel program m with
  | .error (.fault fault) _ => some fault
  | _ => none

/-- A run that ends with a fault has stopped for it. -/
theorem exists_of_faultAtFuel? {fuel : Nat} {program : Program} {m : Machine} {fault : Fault}
    (h : faultAtFuel? fuel program m = some fault) :
    ∃ m', runAtFuel fuel program m = .error (.fault fault) m' := by
  unfold faultAtFuel? at h
  split at h
  · next fault' m' hrun =>
    cases h
    exact ⟨m', hrun⟩
  · cases h

/-- The top level runs as a body does, but has no value. -/
theorem runTopLevel_eq (fuel : Nat) (m : Machine) (body : List Stmt) :
    runTopLevel fuel body m =
      match Stmt.executeAll (callAtFuel fuel) fuel body m with
      | .ok _ m' => .ok () m'
      | .error stop m' => .error stop m' := by
  induction body generalizing m with
  | nil => rfl
  | cons s rest ih =>
    rw [runTopLevel, executeAtFuel, Stmt.executeAll]
    cases hs : s.execute (callAtFuel fuel) fuel m with
    | error stop m' => rw [Eval.bind_eq_of_error hs, Eval.bind_eq_of_error hs]
    | ok flow m' =>
      rw [Eval.bind_eq_of_ok hs, Eval.bind_eq_of_ok hs]
      cases flow with
      | normal => exact ih m'
      | returned v => rfl

/-- What a run of a program changes is among its events. -/
theorem Program.traced (program : Program) (fuel : Nat) (m : Machine) :
    Traced m.restart (runTopLevel fuel program.declarations)
      fun _ => program.eventsAtFuel fuel m := by
  have hbody := Stmt.listTraced (callsTraced fuel) fuel program.declarations m.restart
  unfold Traced at hbody ⊢
  rw [runTopLevel_eq]
  cases hrun : Stmt.executeAll (callAtFuel fuel) fuel program.declarations m.restart with
  | ok flow m' =>
    rw [hrun] at hbody
    exact hbody
  | error stop m' =>
    rw [hrun] at hbody
    exact hbody

end Quill
