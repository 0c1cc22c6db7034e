import Quill.Proofs.Evaluation.Points

/-!
# Where faults are raised

A fault that is raised somewhere in a run ends everything around it (`Reaches.fails`). Conversely, a
part that fails either has a part that does, or raises the fault itself, and then its task says what
fault that is: operators, variables and properties have theirs, and so has a call; statements have
none (`Point.Raises`, `Point.Fails.cases_raises`). Since steps come to an end, the part that raises
the fault is found (`Point.Fails.exists_raises`).
-/

namespace Quill

/-! ## Failing -/

/-- Too many calls are open. -/
def Stop.overflow (line : Nat) : Stop := .fault ⟨.stackOverflow, line⟩

namespace Eval

variable {α β : Type} {m : Machine} {stop : Stop}

/-- From the state, the action stops for the given reason. -/
def Fails (action : Eval α) (m : Machine) (stop : Stop) : Prop :=
  ∃ m', action m = .error stop m'

/-- A sequence stops where its first part does. -/
theorem Fails.bind {x : Eval α} (h : Fails x m stop) (f : α → Eval β) : Fails (x >>= f) m stop := by
  obtain ⟨m', herror⟩ := h
  exact ⟨m', bind_eq_of_error herror⟩

/-- A sequence stops where what follows its first part does. -/
theorem Fails.after {x : Eval α} {f : α → Eval β} {a : α} {m₁ : Machine} (hx : x m = .ok a m₁)
    (h : Fails (f a) m₁ stop) : Fails (x >>= f) m stop := by
  obtain ⟨m', herror⟩ := h
  exact ⟨m', by rw [bind_eq_of_ok hx, herror]⟩

/-- A sequence fails where one of its parts does. -/
theorem Fails.cases_bind {x : Eval α} {f : α → Eval β} (h : Fails (x >>= f) m stop) :
    Fails x m stop ∨ ∃ a m₁, x m = .ok a m₁ ∧ Fails (f a) m₁ stop := by
  cases hx : x m with
  | error stop' m' =>
    obtain ⟨m'', herror⟩ := h
    rw [bind_eq_of_error hx] at herror
    cases herror
    exact .inl ⟨_, hx⟩
  | ok a m₁ =>
    obtain ⟨m'', herror⟩ := h
    rw [bind_eq_of_ok hx] at herror
    exact .inr ⟨a, m₁, rfl, m'', herror⟩

/-- An action stops in another scope just if it stops from the state with that scope. -/
theorem fails_inScope {scope : ScopeId} {action : Eval α} :
    Fails (inScope scope action) m stop ↔ Fails action { m with scope := scope } stop := by
  unfold Fails inScope
  dsimp only
  cases action { m with scope := scope } with
  | ok a m' => exact ⟨nofun, nofun⟩
  | error stop' m' =>
    constructor
    · rintro ⟨_, h⟩
      cases h
      exact ⟨_, rfl⟩
    · rintro ⟨_, h⟩
      cases h
      exact ⟨_, rfl⟩

/-- The faults for which the action may stop are among the given ones. -/
def RaisesOnly (action : Eval α) (Q : Fault → Prop) : Prop :=
  ∀ m fault, Fails action m (.fault fault) → Q fault

/-- An action that stops for no fault has not stopped for one. -/
theorem Fails.elim {action : Eval α} {fault : Fault} (h : Fails action m (.fault fault))
    (hnone : RaisesOnly action fun _ => False) {P : Prop} : P :=
  (hnone m fault h).elim

section

variable {Q : Fault → Prop}

/-- A value is no fault. -/
theorem raisesOnly_pure (a : α) : RaisesOnly (pure a) Q := by
  rintro m fault ⟨m', h⟩
  cases h

/-- A fault is the only one that stopping for it raises. -/
theorem raisesOnly_fail {cause : FaultCause} {line : Nat} (h : Q ⟨cause, line⟩) :
    RaisesOnly (fail cause line : Eval α) Q := by
  rintro m fault ⟨m', hfail⟩
  cases hfail
  exact h

/-- A sequence raises what its parts raise. -/
theorem RaisesOnly.bind {x : Eval α} {f : α → Eval β} (hx : RaisesOnly x Q)
    (hf : ∀ a, RaisesOnly (f a) Q) : RaisesOnly (x >>= f) Q := by
  intro m fault h
  obtain hfirst | ⟨a, m₁, -, hrest⟩ := h.cases_bind
  · exact hx m fault hfirst
  · exact hf a m₁ fault hrest

/-- Looking at the state raises nothing. -/
theorem raisesOnly_get : RaisesOnly (get : Eval Machine) Q := by
  rintro m fault ⟨m', h⟩
  cases h

/-- Changing the store raises nothing. -/
theorem raisesOnly_withStore (f : Store → α × Store) : RaisesOnly (withStore f) Q := by
  rintro m fault ⟨m', h⟩
  cases h

/-- A result raises the fault that it is. -/
theorem raisesOnly_ofExcept {result : Except Fault Value} :
    RaisesOnly (ofExcept result) fun fault => result = .error fault := by
  rintro m fault ⟨m', h⟩
  cases result with
  | ok v => cases h
  | error fault' =>
    cases h
    rfl

/-- Reading a variable raises at most that it is undefined. -/
theorem raisesOnly_readVariable {name : String} {line : Nat}
    (h : Q ⟨.undefinedVariable name, line⟩) : RaisesOnly (readVariable name line) Q := by
  rintro m fault ⟨m', hread⟩
  unfold readVariable at hread
  split at hread
  · cases hread
  · cases hread
    exact h

/-- Assigning to a variable raises at most that it is undefined. -/
theorem raisesOnly_writeVariable {name : String} {line : Nat} (v : Value)
    (h : Q ⟨.undefinedVariable name, line⟩) : RaisesOnly (writeVariable name v line) Q := by
  refine raisesOnly_get.bind fun m => (raisesOnly_withStore _).bind fun found => ?_
  cases found with
  | true => exact raisesOnly_pure _
  | false => exact raisesOnly_fail h

/-- Declaring a variable raises nothing. -/
theorem raisesOnly_declareVariable (name : String) (v : Value) :
    RaisesOnly (declareVariable name v) Q := by
  rintro m fault ⟨m', h⟩
  cases h

/-- Printing raises no fault of the program. -/
theorem raisesOnly_printLine (v : Value) : RaisesOnly (printLine v) Q := by
  rintro m fault ⟨m', h⟩
  obtain ⟨sink, hok | ⟨sinkFault, herror⟩⟩ := printLine_eq v m
  · rw [hok] at h
    cases h
  · rw [herror] at h
    cases h

end

end Eval

open Eval

section

variable {Q : Fault → Prop}

/-- Asking for an object raises at most that the value is none. -/
theorem raisesOnly_objectOf (v : Value) {line : Nat} (h : Q ⟨.notAnInstance, line⟩) :
    RaisesOnly (objectOf v line) Q := by
  cases v with
  | object id => exact raisesOnly_pure id
  | _ => exact raisesOnly_fail h

/-- Reading a property raises at most that it is undefined. -/
theorem raisesOnly_readProperty (id : ObjectId) {property : Name}
    (h : Q ⟨.undefinedProperty property.text, property.line⟩) :
    RaisesOnly (readProperty id property) Q := by
  refine raisesOnly_get.bind fun m => ?_
  split
  · exact raisesOnly_fail h
  · split
    · exact raisesOnly_pure _
    · split
      · exact (raisesOnly_withStore _).bind fun f => raisesOnly_pure _
      · exact raisesOnly_fail h

/-- Calling a function with a wrong number of arguments raises that. -/
theorem raisesOnly_callFunction_arity (run : List Stmt → Eval Flow) {f : FunctionValue}
    {arguments : List Value} (harity : arguments.length ≠ f.declaration.arity) {line : Nat}
    (h : Q ⟨.arityMismatch f.declaration.arity arguments.length, line⟩) :
    RaisesOnly (callFunction run f arguments line) Q := by
  rw [callFunction, if_pos harity]
  exact raisesOnly_fail h

/-- Calling a class with a wrong number of arguments raises that. -/
theorem raisesOnly_construct_arity (run : List Stmt → Eval Flow) {c : ClassValue}
    {arguments : List Value} (harity : arguments.length ≠ c.arity) {line : Nat}
    (h : Q ⟨.arityMismatch c.arity arguments.length, line⟩) :
    RaisesOnly (construct run c arguments line) Q := by
  rw [construct, if_pos harity]
  exact raisesOnly_fail h

/-- A class without an initializer makes an object and runs nothing. -/
theorem raisesOnly_construct_bare (run : List Stmt → Eval Flow) {c : ClassValue}
    (hbare : c.initializer? = none) {arguments : List Value} (harity : arguments.length = c.arity)
    (line : Nat) : RaisesOnly (construct run c arguments line) Q := by
  rw [construct, if_neg (not_not_intro harity), hbare]
  exact (raisesOnly_withStore _).bind fun id => raisesOnly_pure _

end

/-- Running the point stops for the given reason. -/
def Point.Fails (p : Point) (stop : Stop) : Prop :=
  match p.task with
  | .expression e => Eval.Fails (evaluateAtFuel p.fuel e) p.machine stop
  | .expressions es => Eval.Fails (Expr.evaluateAll (callAtFuel p.fuel) es) p.machine stop
  | .statement s => Eval.Fails (executeAtFuel p.fuel s) p.machine stop
  | .statements body => Eval.Fails (Stmt.executeAll (callAtFuel p.fuel) p.fuel body) p.machine stop
  | .loop condition body rounds =>
    Eval.Fails (loopAtFuel (evaluateAtFuel p.fuel condition) (executeAtFuel p.fuel body) rounds)
      p.machine stop
  | .call callee arguments line =>
    Eval.Fails (callAtFuel p.fuel callee arguments line) p.machine stop

/-! ## Calls that fail -/

/-- Where calling a value runs a function, it fails as the function does. -/
theorem fails_callWith {run : List Stmt → Eval Flow} {m m' : Machine} {callee : Value}
    {arguments : List Value} {f : FunctionValue} (hinvoked : m.invoked? callee = some (f, m'))
    (harity : arguments.length = f.declaration.arity) (line : Nat) (stop : Stop) :
    Fails (callWith run callee arguments line) m stop ↔
      Fails (callFunction run f arguments line) m' stop := by
  cases callee with
  | function g =>
    cases hinvoked
    exact Iff.rfl
  | classValue c =>
    have hconstruct := construct_eq_of_invoked? run hinvoked harity line
    constructor
    · rintro ⟨m'', herror⟩
      have hfails : Fails (callFunction run f arguments line >>= fun _ =>
          (return .object ⟨m.store.objects.size⟩ : Eval Value)) m' stop :=
        ⟨m'', hconstruct.symm.trans herror⟩
      obtain hcall | ⟨_, _, -, _, hpure⟩ := hfails.cases_bind
      · exact hcall
      · cases hpure
    · intro hcall
      obtain ⟨m'', herror⟩ := hcall.bind fun _ =>
        (return .object ⟨m.store.objects.size⟩ : Eval Value)
      exact ⟨m'', hconstruct.trans herror⟩
  | _ => cases hinvoked

/-- A function that may be called fails as its body does. -/
theorem fails_callFunction_body {run : List Stmt → Eval Flow} {f : FunctionValue}
    {arguments : List Value} (harity : arguments.length = f.declaration.arity) {m : Machine}
    (hdepth : m.depth < maxCallDepth) (line : Nat) (stop : Stop) :
    Fails (callFunction run f arguments line) m stop ↔
      Fails (run f.declaration.body) (m.entering f arguments) stop := by
  have hcall := callFunction_eq run f arguments line m
  rw [if_neg (not_not_intro harity), if_neg (Nat.not_le.2 hdepth)] at hcall
  unfold Fails
  rw [hcall]
  cases run f.declaration.body (m.entering f arguments) with
  | ok flow m' =>
    cases flow with
    | normal => exact ⟨nofun, nofun⟩
    | returned v => exact ⟨nofun, nofun⟩
  | error stop' m' =>
    constructor
    · rintro ⟨_, h⟩
      cases h
      exact ⟨_, rfl⟩
    · rintro ⟨_, h⟩
      cases h
      exact ⟨_, rfl⟩

/-- Where no call may be opened any more, that is what a call fails for. -/
theorem fails_callFunction_full {run : List Stmt → Eval Flow} {f : FunctionValue}
    {arguments : List Value} (harity : arguments.length = f.declaration.arity) {m : Machine}
    (hdepth : maxCallDepth ≤ m.depth) {line : Nat} {stop : Stop} :
    Fails (callFunction run f arguments line) m stop ↔ stop = .overflow line := by
  have hcall := callFunction_eq run f arguments line m
  rw [if_neg (not_not_intro harity), if_pos hdepth] at hcall
  unfold Fails
  rw [hcall]
  constructor
  · rintro ⟨_, h⟩
    cases h
    rfl
  · rintro rfl
    exact ⟨_, rfl⟩

/-! ## Failing parts -/

/-- A part that fails ends what runs it, for the same reason. -/
theorem Enters.fails {p q : Point} {stop : Stop} (h : Enters p q) (hq : q.Fails stop) :
    p.Fails stop := by
  cases h with
  | operand => exact hq.bind _
  | left => exact hq.bind _
  | right hleft => exact .after hleft (hq.bind _)
  | inner => exact hq
  | assigned => exact hq.bind _
  | callee => exact hq.bind _
  | arguments hcallee => exact .after hcallee (hq.bind _)
  | call hcallee harguments => exact .after hcallee (.after harguments hq)
  | ofGet => exact hq.bind _
  | ofSet => exact hq.bind _
  | set hobject => exact .after hobject (hq.bind _)
  | firstExpression => exact hq.bind _
  | otherExpressions hfirst => exact .after hfirst (hq.bind _)
  | effect => exact hq.bind _
  | printed => exact hq.bind _
  | initial => exact hq.bind _
  | block => exact fails_inScope.2 hq
  | @condition _ _ _ _ elseBranch =>
    cases elseBranch with
    | none => exact hq.bind _
    | some elseBranch => exact hq.bind _
  | @thenBranch _ _ _ _ elseBranch _ _ hcondition hv =>
    cases elseBranch with
    | none => exact .after hcondition (by rwa [if_pos hv])
    | some elseBranch => exact .after hcondition (by rwa [if_pos hv])
  | elseBranch hcondition hv => exact .after hcondition (by rwa [if_neg (by simp [hv])])
  | loop => exact hq
  | loopCondition => exact hq.bind _
  | loopBody hcondition hv =>
    refine .after hcondition ?_
    rw [if_pos hv]
    exact hq.bind _
  | again hcondition hv hbody =>
    refine .after hcondition ?_
    rw [if_pos hv]
    exact .after hbody hq
  | result => exact hq.bind _
  | firstStatement => exact hq.bind _
  | otherStatements hfirst => exact .after hfirst hq
  | body hinvoked harity hdepth =>
    have hdepth' := depth_of_invoked? hinvoked ▸ hdepth
    refine (fails_callWith hinvoked harity _ stop).2 ?_
    exact (fails_callFunction_body harity hdepth' _ stop).2 hq

/-- What fails somewhere in a run fails the run. -/
theorem Reaches.fails {p q : Point} {stop : Stop} (h : Reaches p q) (hq : q.Fails stop) :
    p.Fails stop := by
  induction h with
  | refl => exact hq
  | step _ hstep ih => exact ih (hstep.fails hq)

/-- One of the parts of the point fails for the fault. -/
def Point.PartFails (p : Point) (fault : Fault) : Prop :=
  ∃ q, Enters p q ∧ q.Fails (.fault fault)

/-- What faults the point may raise itself, rather than one of its parts. -/
inductive Point.Raises : Point → Fault → Prop
  | unary {fuel m operator operand v fault} (h : applyUnary operator v = .error fault) :
    Point.Raises ⟨fuel, .expression (.unary operator operand), m⟩ fault
  | binary {fuel m left operator right a b fault} (h : applyBinary operator a b = .error fault) :
    Point.Raises ⟨fuel, .expression (.binary left operator right), m⟩ fault
  | reference {fuel m name} :
    Point.Raises ⟨fuel, .expression (.reference name), m⟩ ⟨.undefinedVariable name.text, name.line⟩
  | assign {fuel m name value} :
    Point.Raises ⟨fuel, .expression (.assign name value), m⟩
      ⟨.undefinedVariable name.text, name.line⟩
  | this {fuel m line} :
    Point.Raises ⟨fuel, .expression (.this line), m⟩ ⟨.undefinedVariable receiverName, line⟩
  | getOf {fuel m object property} :
    Point.Raises ⟨fuel, .expression (.get object property), m⟩ ⟨.notAnInstance, property.line⟩
  | get {fuel m object property} :
    Point.Raises ⟨fuel, .expression (.get object property), m⟩
      ⟨.undefinedProperty property.text, property.line⟩
  | setOf {fuel m object property value} :
    Point.Raises ⟨fuel, .expression (.set object property value), m⟩
      ⟨.notAnInstance, property.line⟩
  | arity {fuel m callee arguments line expected} (h : arguments.length ≠ expected) :
    Point.Raises ⟨fuel, .call callee arguments line, m⟩
      ⟨.arityMismatch expected arguments.length, line⟩
  | overflow {fuel m callee arguments line f m'} (hinvoked : m.invoked? callee = some (f, m'))
    (harity : arguments.length = f.declaration.arity) (hdepth : maxCallDepth ≤ m.depth) :
    Point.Raises ⟨fuel, .call callee arguments line, m⟩ ⟨.stackOverflow, line⟩
  | notCallable {fuel m callee arguments line} :
    Point.Raises ⟨fuel, .call callee arguments line, m⟩ ⟨.notCallable, line⟩

/-- An expression that fails has a part that does, or raises the fault itself. -/
theorem raises_expression {fuel : Nat} {e : Expr} {m : Machine} {fault : Fault}
    (h : Fails (evaluateAtFuel fuel e) m (.fault fault)) :
    Point.PartFails ⟨fuel, .expression e, m⟩ fault ∨ Point.Raises ⟨fuel, .expression e, m⟩ fault := by
  unfold evaluateAtFuel at h
  cases e with
  | literal value line =>
    rw [Expr.evaluate] at h
    exact h.elim (raisesOnly_pure _)
  | unary operator operand =>
    rw [Expr.evaluate] at h
    obtain hoperand | ⟨v, m₁, -, hrest⟩ := h.cases_bind
    · exact .inl ⟨_, .operand, hoperand⟩
    · exact .inr (.unary (raisesOnly_ofExcept m₁ fault hrest))
  | binary left operator right =>
    rw [Expr.evaluate] at h
    obtain hleft | ⟨a, m₁, hleft, hrest⟩ := h.cases_bind
    · exact .inl ⟨_, .left, hleft⟩
    obtain hright | ⟨b, m₂, -, hresult⟩ := hrest.cases_bind
    · exact .inl ⟨_, .right hleft, hright⟩
    · exact .inr (.binary (raisesOnly_ofExcept m₂ fault hresult))
  | group inner =>
    rw [Expr.evaluate] at h
    exact .inl ⟨_, .inner, h⟩
  | reference name =>
    rw [Expr.evaluate] at h
    exact .inr (raisesOnly_readVariable .reference m fault h)
  | assign name value =>
    rw [Expr.evaluate] at h
    obtain hvalue | ⟨v, m₁, -, hrest⟩ := h.cases_bind
    · exact .inl ⟨_, .assigned, hvalue⟩
    · exact .inr ((raisesOnly_writeVariable v .assign).bind (fun _ => raisesOnly_pure v)
        m₁ fault hrest)
  | call callee arguments line =>
    rw [Expr.evaluate] at h
    obtain hcallee | ⟨f, m₁, hcallee, hrest⟩ := h.cases_bind
    · exact .inl ⟨_, .callee, hcallee⟩
    obtain harguments | ⟨values, m₂, harguments, hcall⟩ := hrest.cases_bind
    · exact .inl ⟨_, .arguments hcallee, harguments⟩
    · exact .inl ⟨_, .call hcallee harguments, hcall⟩
  | get object property =>
    rw [Expr.evaluate] at h
    obtain hobject | ⟨v, m₁, -, hrest⟩ := h.cases_bind
    · exact .inl ⟨_, .ofGet, hobject⟩
    · exact .inr ((raisesOnly_objectOf v .getOf).bind (fun id => raisesOnly_readProperty id .get)
        m₁ fault hrest)
  | set object property value =>
    rw [Expr.evaluate] at h
    obtain hobject | ⟨target, m₁, hobject, hrest⟩ := h.cases_bind
    · exact .inl ⟨_, .ofSet, hobject⟩
    obtain hnone | ⟨id, m₂, hid, hvalue⟩ := hrest.cases_bind
    · exact .inr (raisesOnly_objectOf target .setOf m₁ fault hnone)
    obtain ⟨rfl, rfl⟩ : target = .object id ∧ m₂ = m₁ := by
      cases target with
      | object id' => cases hid; exact ⟨rfl, rfl⟩
      | _ => cases hid
    obtain hvalue | ⟨v, m₃, -, hset⟩ := hvalue.cases_bind
    · exact .inl ⟨_, .set hobject, hvalue⟩
    · exact hset.elim ((raisesOnly_withStore _).bind fun _ => raisesOnly_pure v)
  | this line =>
    rw [Expr.evaluate] at h
    exact .inr (raisesOnly_readVariable .this m fault h)

/-- Expressions that fail have one among them that does. -/
theorem partFails_expressions {fuel : Nat} {es : List Expr} {m : Machine} {fault : Fault}
    (h : Fails (Expr.evaluateAll (callAtFuel fuel) es) m (.fault fault)) :
    Point.PartFails ⟨fuel, .expressions es, m⟩ fault := by
  cases es with
  | nil =>
    rw [Expr.evaluateAll] at h
    exact h.elim (raisesOnly_pure _)
  | cons e rest =>
    rw [Expr.evaluateAll] at h
    obtain hfirst | ⟨v, m₁, hfirst, hrest⟩ := h.cases_bind
    · exact ⟨_, .firstExpression, hfirst⟩
    obtain hrest | ⟨vs, m₂, -, hpure⟩ := hrest.cases_bind
    · exact ⟨_, .otherExpressions hfirst, hrest⟩
    · exact hpure.elim (raisesOnly_pure _)

/-- A statement that fails has a part that does. -/
theorem partFails_statement {fuel : Nat} {s : Stmt} {m : Machine} {fault : Fault}
    (h : Fails (executeAtFuel fuel s) m (.fault fault)) :
    Point.PartFails ⟨fuel, .statement s, m⟩ fault := by
  unfold executeAtFuel at h
  cases s with
  | expression value =>
    rw [Stmt.execute] at h
    obtain hvalue | ⟨v, m₁, -, hpure⟩ := h.cases_bind
    · exact ⟨_, .effect, hvalue⟩
    · exact hpure.elim (raisesOnly_pure _)
  | print value =>
    rw [Stmt.execute] at h
    obtain hvalue | ⟨v, m₁, -, hprint⟩ := h.cases_bind
    · exact ⟨_, .printed, hvalue⟩
    · exact hprint.elim ((raisesOnly_printLine v).bind fun _ => raisesOnly_pure Flow.normal)
  | declare name initial =>
    rw [Stmt.execute] at h
    cases initial with
    | none =>
      exact h.elim ((raisesOnly_pure Value.nil).bind fun v =>
        (raisesOnly_declareVariable name.text v).bind fun _ => raisesOnly_pure Flow.normal)
    | some value =>
      obtain hvalue | ⟨v, m₁, -, hdeclare⟩ := h.cases_bind
      · exact ⟨_, .initial, hvalue⟩
      · exact hdeclare.elim
          ((raisesOnly_declareVariable name.text v).bind fun _ => raisesOnly_pure Flow.normal)
  | block body =>
    rw [Stmt.execute] at h
    exact ⟨_, .block, fails_inScope.1 h⟩
  | branch condition thenBranch elseBranch =>
    have hcondition : ∀ {rest : Value → Eval Flow},
        Fails (condition.evaluate (callAtFuel fuel) >>= rest) m (.fault fault) →
        Point.PartFails ⟨fuel, .statement (.branch condition thenBranch elseBranch), m⟩ fault
          ∨ ∃ v m₁, evaluateAtFuel fuel condition m = .ok v m₁
            ∧ Fails (rest v) m₁ (.fault fault) := by
      intro rest h
      obtain hcondition | hrest := h.cases_bind
      · exact .inl ⟨_, .condition, hcondition⟩
      · exact .inr hrest
    cases elseBranch with
    | none =>
      rw [Stmt.execute] at h
      obtain hdone | ⟨v, m₁, hcondition, hrest⟩ := hcondition h
      · exact hdone
      cases hv : v.isTruthy with
      | false =>
        rw [if_neg (by simp [hv])] at hrest
        exact hrest.elim (raisesOnly_pure _)
      | true =>
        rw [if_pos hv] at hrest
        exact ⟨_, .thenBranch hcondition hv, hrest⟩
    | some elseBranch =>
      rw [Stmt.execute] at h
      obtain hdone | ⟨v, m₁, hcondition, hrest⟩ := hcondition h
      · exact hdone
      cases hv : v.isTruthy with
      | false =>
        rw [if_neg (by simp [hv])] at hrest
        exact ⟨_, .elseBranch hcondition hv, hrest⟩
      | true =>
        rw [if_pos hv] at hrest
        exact ⟨_, .thenBranch hcondition hv, hrest⟩
  | loop condition body =>
    rw [Stmt.execute] at h
    exact ⟨_, .loop, h⟩
  | leave line value =>
    rw [Stmt.execute] at h
    cases value with
    | none =>
      exact h.elim ((raisesOnly_pure Value.nil).bind fun v => raisesOnly_pure (Flow.returned v))
    | some value =>
      obtain hvalue | ⟨v, m₁, -, hpure⟩ := h.cases_bind
      · exact ⟨_, .result, hvalue⟩
      · exact hpure.elim (raisesOnly_pure _)
  | function f =>
    obtain ⟨m', herror⟩ := h
    rw [Stmt.execute] at herror
    cases herror
  | classOf c =>
    obtain ⟨m', herror⟩ := h
    rw [Stmt.execute] at herror
    cases herror

/-- Statements that fail have one among them that does. -/
theorem partFails_statements {fuel : Nat} {body : List Stmt} {m : Machine} {fault : Fault}
    (h : Fails (Stmt.executeAll (callAtFuel fuel) fuel body) m (.fault fault)) :
    Point.PartFails ⟨fuel, .statements body, m⟩ fault := by
  cases body with
  | nil =>
    rw [Stmt.executeAll] at h
    exact h.elim (raisesOnly_pure _)
  | cons s rest =>
    rw [Stmt.executeAll] at h
    obtain hfirst | ⟨flow, m₁, hfirst, hrest⟩ := h.cases_bind
    · exact ⟨_, .firstStatement, hfirst⟩
    cases flow with
    | normal => exact ⟨_, .otherStatements hfirst, hrest⟩
    | returned v => exact hrest.elim (raisesOnly_pure _)

/-- A loop that fails has a condition, a body or another round that does. -/
theorem partFails_loop {fuel rounds : Nat} {condition : Expr} {body : Stmt} {m : Machine}
    {fault : Fault}
    (h : Fails (loopAtFuel (evaluateAtFuel fuel condition) (executeAtFuel fuel body) rounds) m
      (.fault fault)) :
    Point.PartFails ⟨fuel, .loop condition body rounds, m⟩ fault := by
  cases rounds with
  | zero =>
    obtain ⟨m', herror⟩ := h
    cases herror
  | succ rounds =>
    rw [loopAtFuel] at h
    obtain hcondition | ⟨v, m₁, hcondition, hrest⟩ := h.cases_bind
    · exact ⟨_, .loopCondition, hcondition⟩
    cases hv : v.isTruthy with
    | false =>
      rw [if_neg (by simp [hv])] at hrest
      exact hrest.elim (raisesOnly_pure _)
    | true =>
      rw [if_pos hv] at hrest
      obtain hbody | ⟨flow, m₂, hbody, hagain⟩ := hrest.cases_bind
      · exact ⟨_, .loopBody hcondition hv, hbody⟩
      cases flow with
      | normal => exact ⟨_, .again hcondition hv hbody, hagain⟩
      | returned v' => exact hagain.elim (raisesOnly_pure _)

/-- A call raises the fault itself if it has a wrong number of arguments, or is one too many, or
calls what cannot be called. -/
theorem raises_call {fuel : Nat} {callee : Value} {arguments : List Value} {m : Machine}
    {line : Nat} {fault : Fault} (h : Fails (callAtFuel fuel callee arguments line) m (.fault fault)) :
    Point.PartFails ⟨fuel, .call callee arguments line, m⟩ fault
      ∨ Point.Raises ⟨fuel, .call callee arguments line, m⟩ fault := by
  cases fuel with
  | zero =>
    obtain ⟨m', herror⟩ := h
    cases herror
  | succ fuel =>
    rw [callAtFuel] at h
    have hready : ∀ {f m'}, m.invoked? callee = some (f, m') →
        arguments.length = f.declaration.arity →
        Point.PartFails ⟨fuel + 1, .call callee arguments line, m⟩ fault
          ∨ Point.Raises ⟨fuel + 1, .call callee arguments line, m⟩ fault := by
      intro f m' hinvoked harity
      have hcall := (fails_callWith hinvoked harity line _).1 h
      have hsame := depth_of_invoked? hinvoked
      by_cases hfull : m.depth < maxCallDepth
      · have hbody := (fails_callFunction_body harity (hsame ▸ hfull) line _).1 hcall
        exact .inl ⟨_, .body hinvoked harity hfull, hbody⟩
      · have hmax := Nat.le_of_not_lt hfull
        cases (fails_callFunction_full harity (hsame ▸ hmax)).1 hcall
        exact .inr (.overflow hinvoked harity hmax)
    cases callee with
    | function f =>
      by_cases harity : arguments.length = f.declaration.arity
      · exact hready rfl harity
      · exact .inr (raisesOnly_callFunction_arity _ harity (.arity harity) m fault h)
    | classValue c =>
      by_cases harity : arguments.length = c.arity
      · cases hinitializer : c.initializer? with
        | none =>
          exact h.elim (raisesOnly_construct_bare _ hinitializer harity line)
        | some method =>
          obtain ⟨f, m', hinvoked, hf⟩ := exists_invoked? m hinitializer
          exact hready hinvoked (by rw [harity, arity_of_initializer? hinitializer, hf])
      · exact .inr (raisesOnly_construct_arity _ harity (.arity harity) m fault h)
    | _ => exact .inr (raisesOnly_fail .notCallable m fault h)

/-- Where a point fails, one of its parts does, or it raises the fault itself. -/
theorem Point.Fails.cases_raises {p : Point} {fault : Fault} (h : p.Fails (.fault fault)) :
    p.PartFails fault ∨ p.Raises fault := by
  obtain ⟨fuel, task, m⟩ := p
  cases task with
  | expression e => exact raises_expression h
  | expressions es => exact .inl (partFails_expressions h)
  | statement s => exact .inl (partFails_statement h)
  | statements body => exact .inl (partFails_statements h)
  | loop condition body rounds => exact .inl (partFails_loop h)
  | call callee arguments line => exact raises_call h

/-- A fault comes from a part that raises it. -/
theorem Point.Fails.exists_raises {p : Point} {fault : Fault} (h : p.Fails (.fault fault)) :
    ∃ q, Reaches p q ∧ q.Raises fault := by
  obtain ⟨q, hstep, hq⟩ | hp := h.cases_raises
  · obtain ⟨r, hreach, hr⟩ := exists_raises hq
    exact ⟨r, hstep.trans hreach, hr⟩
  · exact ⟨p, .refl, hp⟩
termination_by p.rank
decreasing_by exact hstep.rank_lt

end Quill
