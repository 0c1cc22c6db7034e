import Quill.Proofs.Evaluation.Extension
import Quill.Proofs.Grammar.Streams
import Quill.Proofs.Receivers.Steps

/-!
# The receiver

Wherever a point of a session stands in a bound method, the receiver's name has the method's receiver
as its value there, and where it stands in none, the name is not bound (`this_is_receiver`). It does
not matter when and by whom the method was called, nor what has been done to the store in between.

The induction is on how the point stands, and it is about the store in which the session has ended
(`StepsTo.get?_of_stands`): receivers are kept, so what that store says of a scope, all stores say
that have the scope.
-/

namespace Quill

open Eval

/-! ## Scopes of parts -/

section

variable {m : Machine} {f : FunctionValue} {arguments : List Value}

/-- Binding names in a scope changes no scopes around any scope. -/
theorem Store.enclosing_defineAll (s : Store) (id other : ScopeId)
    (bindings : List (String × Value)) :
    (s.defineAll id bindings).enclosing other = s.enclosing other := by
  induction bindings generalizing s with
  | nil => rfl
  | cons binding rest ih => rw [Store.defineAll, ih, Store.enclosing_define]

/-- The scope of the parameters is directly inside the one that the function closes over. -/
theorem Machine.enclosing_entering (hf : f.closure.index < m.store.scopes.size) :
    (m.entering f arguments).store.enclosing (m.entering f arguments).scope =
      (m.entering f arguments).store.chain f.closure := by
  have hother : (m.entering f arguments).store.enclosing f.closure =
      m.store.enclosing f.closure := by
    rw [Machine.entering, Store.enclosing_defineAll]
    exact Store.enclosing_addScope _ _ hf
  rw [Store.chain, hother, Machine.entering, Store.enclosing_defineAll]
  exact Store.enclosing_addScope_self _ _

/-- The scope of a block is directly inside the one around the block. -/
theorem Machine.enclosing_enteringBlock (hm : m.scope.index < m.store.scopes.size) :
    m.enteringBlock.store.enclosing m.enteringBlock.scope =
      m.enteringBlock.store.chain m.scope := by
  have hother : m.enteringBlock.store.enclosing m.scope = m.store.enclosing m.scope :=
    Store.enclosing_addScope _ _ hm
  rw [Store.chain, hother]
  exact Store.enclosing_addScope_self _ _

end

/-! ## Bound methods -/

section

variable {m : Machine} {bound : BoundMethod}

/-- Reading a method of an object makes it into a function. -/
theorem evaluate_get {fuel : Nat} {object : Expr} {property : Name} {id : ObjectId} {m₁ : Machine}
    {found : Object} {method : FunctionDecl}
    (hobject : evaluateAtFuel fuel object m = .ok (.object id) m₁)
    (hfound : m₁.store.object? id = some found)
    (hfield : found.fields.get? property.text = none)
    (hmethod : found.classOf.method? property.text = some method) :
    evaluateAtFuel fuel (.get object property) m =
      .ok (.function (m₁.store.bindMethod found.classOf method id).1)
        { m₁ with store := (m₁.store.bindMethod found.classOf method id).2 } := by
  have hread : readProperty id property m₁ =
      .ok (.function (m₁.store.bindMethod found.classOf method id).1)
        { m₁ with store := (m₁.store.bindMethod found.classOf method id).2 } := by
    have hget : (get : Eval Machine) m₁ = .ok m₁ m₁ := rfl
    unfold readProperty
    rw [bind_eq_of_ok hget]
    simp only [hfound, hfield, hmethod]
    rfl
  rw [evaluateAtFuel, Expr.evaluate]
  exact (bind_eq_of_ok hobject).trans hread

/-- Where a method has been made into a function, there is a scope with its receiver. -/
theorem Point.Binds.own? {p : Point} (h : p.Binds bound)
    (hready : (Store.receivers Stmt.Parsed).Ready p.machine)
    (hallows : (Store.receivers Stmt.Parsed).Allows Stmt.Parsed p.machine p.task) :
    p.ending.store.own? bound.function.closure receiverName = some bound.this := by
  cases h with
  | @read fuel m object property id m₁ found method hobject hfound hfield hmethod =>
    have hending : Point.ending ⟨fuel, .expression (.get object property), m⟩ =
        { m₁ with store := (m₁.store.bindMethod found.classOf method id).2 } :=
      congrArg Eval.ending (evaluate_get hobject hfound hfield hmethod)
    rw [hending]
    exact Store.own?_bindMethod_self ..
  | @initializer fuel m c arguments line f m₁ hinvoked harity =>
    obtain ⟨hready₁, hstep, hf⟩ := Invariant.ready_invoked? keptReceivers hready hallows.1 hinvoked
    have harguments : ∀ v ∈ arguments, (Store.receivers Stmt.Parsed).value m₁.store v :=
      fun v hv => keptReceivers.value_later hstep.later (hallows.2 v hv)
    have hcall := Invariant.callsKeep keptReceivers (fuel + 1) line hready₁.toAt hf harguments
    have hending : Point.ending ⟨fuel + 1, .call (.classValue c) arguments line, m⟩ =
        Eval.ending (callAtFuel (fuel + 1) (.function f) arguments line m₁) :=
      ending_callWith hinvoked harity
    have hown : m₁.store.own? f.closure receiverName = some (.object ⟨m.store.objects.size⟩) := by
      obtain ⟨method, -, rfl, rfl⟩ := exists_initializer_of_invoked? hinvoked
      exact Store.own?_bindMethod_self ..
    rw [hending]
    exact (hcall.step.later.receiver (keptReceivers.closure hf)).trans hown

end

namespace StepsTo

variable {sink : Sink} {steps : List Point} {m : Machine} {p q c : Point} {bound : BoundMethod}
  {bound? : Option BoundMethod} {f : FunctionValue}

/-- The receiver that a method was bound with is in its scope to the end. -/
theorem own?_of_binds (h : StepsTo sink steps m) (hp : Reached steps p) (hbinds : p.Binds bound) :
    m.store.own? bound.function.closure receiverName = some bound.this := by
  obtain ⟨hready, hallows⟩ := h.readySteps hp
  have hown := hbinds.own? hready hallows
  have hlt := Store.index_lt_of_own? hown
  rw [(h.keeps_ending hp).receiver hlt, hown]

/-- A scope without a receiver sees the receiver that the one around it sees. -/
theorem get?_of_inside (h : StepsTo sink steps m) (hq : Reached steps q) {outer : ScopeId}
    (houter : outer.index < q.machine.store.scopes.size)
    (henclosing : q.machine.store.enclosing q.machine.scope = q.machine.store.chain outer) :
    m.store.get? q.machine.scope receiverName = m.store.get? outer receiverName := by
  have hready := (h.readySteps hq).1
  have hown := (hready.declarable receiverName).2
  have hkeeps := h.keeps_machine hq
  rw [hkeeps.get? hready.place hready.holds.1.nested, hkeeps.get? houter hready.holds.1.nested]
  exact Store.get?_of_inside henclosing hown

/-- The body of a function sees the receiver that the function was closed over with. -/
theorem get?_of_calls (h : StepsTo sink steps m) (hc : Reached steps c) (hcalls : c.Calls f q) :
    m.store.get? q.machine.scope receiverName = m.store.get? f.closure receiverName := by
  have hq := hc.enters hcalls.enters
  obtain ⟨hready, hallows⟩ := h.readySteps hc
  cases hcalls with
  | @body fuel n callee arguments line f n₁ hinvoked harity hdepth =>
    obtain ⟨hready₁, -, hf⟩ := Invariant.ready_invoked? keptReceivers hready hallows.1 hinvoked
    have hclosure : f.closure.index < n₁.store.scopes.size := keptReceivers.closure hf
    have hsize : n₁.store.scopes.size < (n₁.entering f arguments).store.scopes.size := by
      rw [Machine.entering, Store.size_defineAll, Store.addChild, Store.size_addScope]
      exact Nat.lt_succ_self _
    exact h.get?_of_inside hq (Nat.lt_trans hclosure hsize) (Machine.enclosing_entering hclosure)

/-- **What stands in a bound method sees its receiver**, and what stands in none sees none. -/
theorem get?_of_stands (h : StepsTo sink steps m) (hstands : Stands steps bound? q) :
    m.store.get? q.machine.scope receiverName = bound?.map BoundMethod.this := by
  induction hstands with
  | top hp => exact (h.get?_receiverName ⟨_, hp, .refl⟩).trans (h.get?_topLevel.2 _ hp)
  | @part _ p q hp hcall hstep ih =>
    have hq := hp.reached.enters hstep
    have hplace : p.machine.scope.index < p.machine.store.scopes.size :=
      (h.readySteps hp.reached).1.place
    rcases hstep.place with hsame | hblock | ⟨hcall', -⟩
    · rw [hsame.scope, ih]
    · rw [← ih]
      refine h.get?_of_inside hq ?_ ?_
      · rw [hblock]
        exact Nat.lt_of_lt_of_le hplace (Store.KeepsReceivers.addScope _ _).size
      · rw [hblock]
        exact Machine.enclosing_enteringBlock hplace
    · exact absurd hcall' hcall
  | function _ hdeclares hc hcalls ih =>
    rw [h.get?_of_calls hc hcalls, ← ih]
    cases hdeclares with
    | function => rfl
  | method hp hbinds hc hcalls =>
    rw [h.get?_of_calls hc hcalls]
    exact Store.get?_of_own? (h.own?_of_binds hp hbinds)

end StepsTo

/-! ## New objects -/

section

variable {m m' m₁ : Machine} {c : ClassValue} {f : FunctionValue} {arguments : List Value}
  {fuel line : Nat}

/-- The object is one that was not there, and it is of the class. -/
structure Store.Creates (s : Store) (id : ObjectId) (c : ClassValue) (s' : Store) : Prop where
  fresh : s.object? id = none
  made : ∃ object, s'.object? id = some object ∧ object.classOf = c

/-- Whatever comes after it, a new object stays. -/
theorem Store.Extends.creates {gains : ScopeId → String → Prop} {s s' : Store}
    (h : (s.addObject c).2.Extends gains s') : s.Creates ⟨s.objects.size⟩ c s' where
  fresh := Array.getElem?_eq_none (Nat.le_refl _)
  made := by
    have hnew : (s.addObject c).2.object? ⟨s.objects.size⟩ = some ⟨c, .empty⟩ :=
      Array.getElem?_push_size
    obtain ⟨object, hobject, hclass, -⟩ := h.object hnew
    exact ⟨object, hobject, hclass⟩

/-- The initializer runs in a store that goes on from the one with the new object. -/
theorem extends_invoked? (hinvoked : m.invoked? (.classValue c) = some (f, m₁)) :
    (m.store.addObject c).2.Extends (fun _ _ => False) m₁.store := by
  obtain ⟨method, -, rfl, rfl⟩ := exists_initializer_of_invoked? hinvoked
  exact (Store.extends_refl _).bindMethod c method _

/-- A class call is a call of the initializer that comes to the new object. -/
theorem call_classValue_eq (hinvoked : m.invoked? (.classValue c) = some (f, m₁))
    (harity : arguments.length = f.declaration.arity) :
    callAtFuel (fuel + 1) (.classValue c) arguments line m =
      (callAtFuel (fuel + 1) (.function f) arguments line >>= fun _ =>
        (return .object ⟨m.store.objects.size⟩ : Eval Value)) m₁ :=
  construct_eq_of_invoked? _ hinvoked harity line

/-- A class call comes to its new object as soon as its initializer comes to anything. -/
theorem call_classValue_of_ok (hinvoked : m.invoked? (.classValue c) = some (f, m₁))
    (harity : arguments.length = f.declaration.arity) {w : Value}
    (hcall : callAtFuel fuel (.function f) arguments line m₁ = .ok w m') :
    callAtFuel fuel (.classValue c) arguments line m = .ok (.object ⟨m.store.objects.size⟩) m' := by
  cases fuel with
  | zero => cases hcall
  | succ fuel => exact (call_classValue_eq hinvoked harity).trans (bind_eq_of_ok hcall)

/-- Whatever the initializer does, it does to a store that has the object. -/
theorem creates_of_initializer (hinvoked : m.invoked? (.classValue c) = some (f, m₁)) {w : Value}
    (hcall : callAtFuel fuel (.function f) arguments line m₁ = .ok w m') :
    m.store.Creates ⟨m.store.objects.size⟩ c m'.store := by
  have hkeeps : ((m.store.addObject c).2.extension fun _ _ => False).Keeps m₁
      (callAtFuel fuel (.function f) arguments line m₁) _ :=
    Invariant.callsKeep (Store.kept_extension _ _) fuel line
      ⟨extends_invoked? hinvoked, trivial⟩ trivial fun _ _ => trivial
  have hextends := hkeeps.step.holds
  rw [hcall] at hextends
  exact Store.Extends.creates hextends

/-- A class call comes to its new object, or to nothing. -/
theorem creates_of_call {v : Value}
    (hok : callAtFuel fuel (.classValue c) arguments line m = .ok v m') :
    v = .object ⟨m.store.objects.size⟩ ∧ m.store.Creates ⟨m.store.objects.size⟩ c m'.store := by
  cases fuel with
  | zero => cases hok
  | succ fuel =>
  by_cases harity : arguments.length = c.arity
  · cases hinitializer : c.initializer? with
    | none =>
      have hconstruct : construct _ c arguments line m = .ok v m' := hok
      rw [construct, if_neg (not_not_intro harity)] at hconstruct
      simp only [hinitializer] at hconstruct
      cases hconstruct
      have hextends : (m.store.addObject c).2.Extends (fun _ _ => False) (m.store.addObject c).2 :=
        Store.extends_refl _
      exact ⟨rfl, hextends.creates⟩
    | some method =>
      obtain ⟨f, m₁, hinvoked, hf⟩ := exists_invoked? m hinitializer
      have harity' : arguments.length = f.declaration.arity := by
        rw [harity, arity_of_initializer? hinitializer, hf]
      rw [call_classValue_eq hinvoked harity'] at hok
      cases hcall : callAtFuel (fuel + 1) (.function f) arguments line m₁ with
      | error stop n =>
        rw [bind_eq_of_error hcall] at hok
        cases hok
      | ok w n =>
        rw [bind_eq_of_ok hcall] at hok
        cases hok
        exact ⟨rfl, creates_of_initializer hinvoked hcall⟩
  · have hconstruct : construct _ c arguments line m = .ok v m' := hok
    rw [construct, if_pos harity] at hconstruct
    cases hconstruct

/-- The body of the initializer of a class that is called stands in the initializer, made ready for the
new object. -/
theorem stands_initializer {steps : List Point} {method : FunctionDecl}
    (hcall : Reached steps ⟨fuel + 1, .call (.classValue c) arguments line, m⟩)
    (hinitializer : c.initializer? = some method) (harity : arguments.length = method.arity)
    (hdepth : m.depth < maxCallDepth) :
    ∃ bound q, Stands steps (some bound) q ∧ bound.receiver = ⟨m.store.objects.size⟩ ∧
      q.task = .statements method.body := by
  obtain ⟨f, m₁, hinvoked, hf⟩ := exists_invoked? m hinitializer
  have harity' : arguments.length = f.declaration.arity := hf ▸ harity
  refine ⟨⟨f, _⟩, _, .method hcall (.initializer hinvoked harity') hcall
    (.body hinvoked harity' hdepth), rfl, ?_⟩
  rw [hf]

end

/-! ## The receivers of a session -/

/-- What is true of the receivers of a session. -/
structure Receivers (sink : Sink) (steps : List Point) : Prop where
  /-- A scope that binds the receiver has been made for a bound method of this receiver. -/
  made : ∀ {n id v}, Visited sink steps n → n.store.own? id receiverName = some v →
    ∃ p bound, Reached steps p ∧ p.Binds bound ∧ bound.function.closure = id ∧ v = bound.this
  /-- It binds nothing else. -/
  alone : ∀ {n id name}, Visited sink steps n → (n.store.own? id receiverName).isSome →
    (n.store.own? id name).isSome → name = receiverName
  /-- The receiver of a scope, or that it has none, is the same in all states that have the scope. -/
  constant : ∀ {n n' id}, Visited sink steps n → Visited sink steps n' →
    id.index < n.store.scopes.size → id.index < n'.store.scopes.size →
    n'.store.own? id receiverName = n.store.own? id receiverName
  /-- Every part stands in a bound method or in none. -/
  standing : ∀ {q}, Reached steps q → ∃ bound?, Stands steps bound? q
  /-- What stands in a bound method is part of its text. -/
  text : ∀ {bound q}, Stands steps (some bound) q →
    q.task.Occurs (· ∈ bound.function.declaration.body)
  /-- In a bound method the receiver is the one that it was bound to. -/
  this : ∀ {bound q}, Stands steps (some bound) q → ∀ line,
    evaluateAtFuel q.fuel (.this line) q.machine = .ok bound.this q.machine
  /-- Elsewhere there is none. -/
  noThis : ∀ {q}, Stands steps none q → ∀ line,
    evaluateAtFuel q.fuel (.this line) q.machine =
      .error (.fault ⟨.undefinedVariable receiverName, line⟩) q.machine
  /-- A method that is read is bound to the object that it is read from. -/
  read : ∀ {fuel object property n bound},
    Reached steps ⟨fuel, .expression (.get object property), n⟩ →
    Point.Binds ⟨fuel, .expression (.get object property), n⟩ bound →
    ∃ n₁ n₂, evaluateAtFuel fuel object n = .ok bound.this n₁ ∧
      evaluateAtFuel fuel (.get object property) n = .ok (.function bound.function) n₂
  /-- The initializer of a class that is called is bound to a new object. As soon as it has come to
  anything, the call has come to this object. -/
  initialized : ∀ {fuel c arguments line n bound},
    Reached steps ⟨fuel, .call (.classValue c) arguments line, n⟩ →
    Point.Binds ⟨fuel, .call (.classValue c) arguments line, n⟩ bound →
    n.store.object? bound.receiver = none ∧
      ∃ n₁, n.invoked? (.classValue c) = some (bound.function, n₁) ∧
        ∀ {w n'}, callAtFuel fuel (.function bound.function) arguments line n₁ = .ok w n' →
          callAtFuel fuel (.classValue c) arguments line n = .ok bound.this n'
  /-- What a class call comes to is a new object of the class, the one of its initializer. -/
  created : ∀ {fuel c arguments line n v n'},
    Reached steps ⟨fuel, .call (.classValue c) arguments line, n⟩ →
    callAtFuel fuel (.classValue c) arguments line n = .ok v n' →
    ∃ id, v = .object id ∧ n.store.Creates id c n'.store ∧
      ∀ {bound}, Point.Binds ⟨fuel, .call (.classValue c) arguments line, n⟩ bound →
        bound.receiver = id

section

variable {sink : Sink} {steps : List Point} {m : Machine}

/-- **The receiver**, wherever it is asked for in a session, is the object that the innermost method
around was bound to. -/
theorem this_is_receiver (h : StepsTo sink steps m) : Receivers sink steps where
  made := by
    intro n id v hn hown
    have hkept := (h.keeps_visited hn).receiver (Store.index_lt_of_own? hown)
    exact h.sourced.1.receiver (hkept.trans hown)
  alone hn := (h.ready_visited hn).holds.2 _ _
  constant hn hn' hid hid' :=
    ((h.keeps_visited hn').receiver hid').symm.trans ((h.keeps_visited hn).receiver hid)
  standing hq := (h.sourced.2 hq).stands
  text hstands := hstands.occurs
  this := by
    intro bound q hstands line
    have hget := (h.get?_receiverName hstands.reached).symm.trans (h.get?_of_stands hstands)
    rw [evaluateAtFuel, Expr.evaluate, readVariable, hget]
    rfl
  noThis := by
    intro q hstands line
    have hget := (h.get?_receiverName hstands.reached).symm.trans (h.get?_of_stands hstands)
    rw [evaluateAtFuel, Expr.evaluate, readVariable, hget]
    rfl
  read := by
    intro fuel object property n bound _ hbinds
    cases hbinds with
    | read hobject hfound hfield hmethod =>
      exact ⟨_, _, hobject, evaluate_get hobject hfound hfield hmethod⟩
  initialized := by
    intro fuel c arguments line n bound _ hbinds
    cases hbinds with
    | initializer hinvoked harity =>
      refine ⟨Array.getElem?_eq_none (Nat.le_refl _), _, hinvoked, ?_⟩
      exact fun hok => call_classValue_of_ok hinvoked harity hok
  created := by
    intro fuel c arguments line n v n' _ hok
    obtain ⟨hv, hcreates⟩ := creates_of_call hok
    refine ⟨_, hv, hcreates, ?_⟩
    intro bound hbinds
    cases hbinds with
    | initializer hinvoked harity => rfl

end

/-- A class with an initializer, and a call of the class. -/
def classCall : Program :=
  ⟨[.classOf ⟨⟨"A", 1⟩, [⟨⟨"init", 1⟩, [], []⟩]⟩, .expression (.call (.reference ⟨"A", 1⟩) [] 1)]⟩

/-- The body of the initializer sees the first object there is. -/
theorem this_is_receiver_initializer :
    parse "class A \x7b fn init() \x7b \x7d \x7d A();" = .ok classCall ∧
      ∃ steps m bound q,
        steps = [⟨3, .statements classCall.declarations, (Machine.ofSink .unlimited).restart⟩] ∧
        StepsTo .unlimited steps m ∧ Stands steps (some bound) q ∧
        evaluateAtFuel q.fuel (.this 1) q.machine = .ok (.object ⟨0⟩) q.machine := by
  have hparse : parse "class A \x7b fn init() \x7b \x7d \x7d A();" = .ok classCall := by
    have htokens : tokenize "class A \x7b fn init() \x7b \x7d \x7d A();" =
        [⟨.keyword .classWord, "class", 1⟩, ⟨.identifier, "A", 1⟩, ⟨.symbol .leftBrace, "\x7b", 1⟩,
          ⟨.keyword .fnWord, "fn", 1⟩, ⟨.identifier, "init", 1⟩, ⟨.symbol .leftParen, "(", 1⟩,
          ⟨.symbol .rightParen, ")", 1⟩, ⟨.symbol .leftBrace, "\x7b", 1⟩,
          ⟨.symbol .rightBrace, "\x7d", 1⟩, ⟨.symbol .rightBrace, "\x7d", 1⟩,
          ⟨.identifier, "A", 1⟩, ⟨.symbol .leftParen, "(", 1⟩, ⟨.symbol .rightParen, ")", 1⟩,
          ⟨.symbol .semicolon, ";", 1⟩, ⟨.eof, "", 1⟩] := by
      decide +kernel
    rw [parse_eq, htokens]
    rfl
  have hsession := StepsTo.start.step (.run (m := .ofSink .unlimited) hparse 3)
  have hdeclared : executeAtFuel 3 (.classOf ⟨⟨"A", 1⟩, [⟨⟨"init", 1⟩, [], []⟩]⟩)
      (Machine.ofSink .unlimited).restart = .ok .normal _ := rfl
  have hbegun := Reached.head ⟨3, .statements classCall.declarations,
    (Machine.ofSink .unlimited).restart⟩ []
  have hstatement := (hbegun.enters (.otherStatements hdeclared)).enters .firstStatement
  have hcall := (hstatement.enters .effect).enters (.call rfl rfl)
  obtain ⟨bound, q, hstands, hreceiver, -⟩ := stands_initializer hcall rfl rfl (Nat.succ_pos _)
  have hthis := (this_is_receiver hsession).this hstands 1
  rw [BoundMethod.this, hreceiver] at hthis
  exact ⟨hparse, _, _, bound, q, rfl, hsession, hstands, hthis⟩

end Quill
