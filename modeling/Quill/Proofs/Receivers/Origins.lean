import Quill.Proofs.Receivers.BoundMethods
import Quill.Proofs.Receivers.Scopes

/-!
# Where functions and receivers come from

Every function at hand in a session has been declared at one of its points, or a method was made into
it there; and every scope with a receiver was made for such a method (`Store.Sourced`). The proof
goes along the parts of a run, from the parts of a point to the point itself (`Point.sources`), and
to every part that is reached (`enters_sourced`).
-/

namespace Quill

open Eval

variable {steps steps' : List Point}

/-! ## Values and stores with known origins -/

/-- A function comes from a point of the session. -/
def Value.Sourced (steps : List Point) : Value → Prop
  | .function f => ∃ bound?, f.Belongs steps bound?
  | _ => True

/-- A plain value holds no function, so it has no origin to be asked for. -/
theorem Value.sourced_of_isPlain {v : Value} (h : IsPlain (.ok v)) : v.Sourced steps := by
  cases v with
  | function f => exact h.elim
  | _ => trivial

/-- An origin stays known when further steps are made. -/
theorem Value.Sourced.mono {v : Value} (h : v.Sourced steps) (hsteps : steps ⊆ steps') :
    v.Sourced steps' := by
  cases v with
  | function f =>
    obtain ⟨bound?, hf⟩ := h
    exact ⟨bound?, hf.mono hsteps⟩
  | _ => trivial

/-- All functions in the store come from points of the session, and so do all receivers: the scope was
made for a method of the object. -/
structure Store.Sourced (steps : List Point) (s : Store) : Prop where
  own : ∀ {id name v}, s.own? id name = some v → v.Sourced steps
  field : ∀ {id object name v}, s.object? id = some object → object.fields.get? name = some v →
    v.Sourced steps
  receiver : ∀ {id v}, s.own? id receiverName = some v → ∃ p bound, Reached steps p ∧
    p.Binds bound ∧ bound.function.closure = id ∧ v = bound.this

namespace Store.Sourced

variable {s s' : Store}

/-- A store of known origins stays one when further steps are made. -/
theorem mono (h : s.Sourced steps) (hsteps : steps ⊆ steps') : s.Sourced steps' where
  own hown := (h.own hown).mono hsteps
  field hobject hfield := (h.field hobject hfield).mono hsteps
  receiver hown := by
    obtain ⟨p, bound, hp, hrest⟩ := h.receiver hown
    exact ⟨p, bound, hp.mono hsteps, hrest⟩

/-- Nothing is in the empty store. -/
theorem empty : Store.empty.Sourced steps where
  own hown := by simp [Store.own?, Store.empty] at hown
  field hobject := by simp [Store.object?, Store.empty] at hobject
  receiver hown := by simp [Store.own?, Store.empty] at hown

/-- What a variable holds in a store of known origins has one. -/
theorem of_get? (h : s.Sourced steps) {id : ScopeId} {name : String} {v : Value}
    (hget : s.get? id name = some v) : v.Sourced steps := by
  obtain ⟨outer, -, hown⟩ := List.exists_of_findSome?_eq_some hget
  exact h.own hown

/-- Only the scopes and the objects of a store matter for its origins. -/
theorem congr (h : s.Sourced steps) (hscopes : s'.scopes = s.scopes)
    (hobjects : s'.objects = s.objects) : s'.Sourced steps := by
  obtain ⟨scopes, objects, identities⟩ := s
  obtain ⟨scopes', objects', identities'⟩ := s'
  subst hscopes hobjects
  exact ⟨h.own, h.field, h.receiver⟩

/-- A value of known origin may be bound to any name but the receiver's. -/
theorem define (h : s.Sourced steps) {name : String} (hname : name ≠ receiverName) {v : Value}
    (hv : v.Sourced steps) (id : ScopeId) : (s.define id name v).Sourced steps where
  own := by
    intro other key w hown
    rw [own?_define] at hown
    split at hown
    · cases hown
      exact hv
    · exact h.own hown
  field := h.field
  receiver := by
    intro other w hown
    rw [own?_define, if_neg fun hsame => hname hsame.2.2] at hown
    exact h.receiver hown

/-- Values of known origins may be bound to names other than the receiver's. -/
theorem defineAll (h : s.Sourced steps) (id : ScopeId) {bindings : List (String × Value)}
    (hbindings : ∀ binding ∈ bindings, binding.1 ≠ receiverName ∧ binding.2.Sourced steps) :
    (s.defineAll id bindings).Sourced steps := by
  induction bindings generalizing s with
  | nil => exact h
  | cons binding rest ih =>
    obtain ⟨⟨hname, hv⟩, hrest⟩ := List.forall_mem_cons.1 hbindings
    exact ih (h.define hname hv id) hrest

/-- A new scope holds no values. -/
theorem addScope (h : s.Sourced steps) (around : List ScopeId) :
    (s.addScope around).2.Sourced steps where
  own := by
    intro id name v hown
    rw [own?_addScope_eq] at hown
    split at hown
    · cases hown
    · exact h.own hown
  field := h.field
  receiver := by
    intro id v hown
    rw [own?_addScope_eq] at hown
    split at hown
    · cases hown
    · exact h.receiver hown

/-- A new object holds no values. -/
theorem addObject (h : s.Sourced steps) (c : ClassValue) : (s.addObject c).2.Sourced steps where
  own := h.own
  field := by
    intro id object name v hobject hfield
    simp only [object?, Store.addObject, Array.getElem?_push] at hobject
    split at hobject
    · cases hobject
      cases hfield
    · exact h.field hobject hfield
  receiver := h.receiver

/-- A value of known origin may be put into a field. -/
theorem setField (h : s.Sourced steps) {v : Value} (hv : v.Sourced steps) (target : ObjectId)
    (name : String) : (s.setField target name v).Sourced steps where
  own := h.own
  field := by
    intro id object key w hobject hfield
    simp only [object?, Store.setField, Array.getElem?_modify] at hobject
    split at hobject
    · obtain ⟨old, hold, rfl⟩ := Option.map_eq_some_iff.1 hobject
      rw [Bindings.get?_insert] at hfield
      split at hfield
      · cases hfield
        exact hv
      · exact h.field hold hfield
    · exact h.field hobject hfield
  receiver := h.receiver

/-- A method is made into a function, at a point of the session. -/
theorem bindMethod (h : s.Sourced steps) {c : ClassValue} {method : FunctionDecl}
    {receiver : ObjectId} {p : Point} (hp : Reached steps p)
    (hbinds : p.Binds ⟨(s.bindMethod c method receiver).1, receiver⟩) :
    (s.bindMethod c method receiver).2.Sourced steps where
  own := by
    intro id name v hown
    rw [own?_bindMethod] at hown
    split at hown
    · split at hown
      · cases hown
        trivial
      · cases hown
    · exact h.own hown
  field := h.field
  receiver := by
    intro id v hown
    rw [own?_bindMethod] at hown
    split at hown
    · next hnew =>
      cases hown
      exact ⟨p, _, hp, hbinds, congrArg ScopeId.mk hnew.symm, rfl⟩
    · exact h.receiver hown

end Store.Sourced

/-! ## Actions -/

/-- The store behind an action has known origins, and what it yields is as it should be. -/
structure Sources (steps : List Point) {α : Type} (result : EStateM.Result Stop Machine α)
    (yields : α → Prop) : Prop where
  store : (ending result).store.Sourced steps
  yields : ∀ {a m'}, result = .ok a m' → yields a

section

variable {α β : Type} {m m' : Machine}

/-- A result behind which the origins are known is as it should be. -/
theorem sources_ok {yields : α → Prop} {a : α} (h : m.store.Sourced steps) (ha : yields a) :
    Sources steps (.ok a m) yields where
  store := h
  yields := by
    rintro _ _ ⟨⟩
    exact ha

/-- A stop behind which the origins are known is as it should be. -/
theorem sources_error {yields : α → Prop} (h : m.store.Sourced steps) (stop : Stop) :
    Sources steps (.error stop m) yields where
  store := h
  yields := nofun

/-- Origins stay known from an action to what follows it. -/
theorem Sources.bind {x : Eval α} {f : α → Eval β} {yields : α → Prop} {yields' : β → Prop}
    (hx : Sources steps (x m) yields)
    (hf : ∀ a m', x m = .ok a m' → m'.store.Sourced steps → yields a →
      Sources steps (f a m') yields') : Sources steps ((x >>= f) m) yields' := by
  obtain ⟨hstore, hyields⟩ := hx
  cases haction : x m with
  | ok a m' =>
    rw [haction] at hstore
    rw [bind_eq_of_ok haction]
    exact hf a m' haction hstore (hyields haction)
  | error stop m' =>
    rw [haction] at hstore
    rw [bind_eq_of_error haction]
    exact sources_error hstore stop

variable (h : m.store.Sourced steps)

include h

/-- The result of an operator is plain, and the store is as it was. -/
theorem sources_ofExcept {result : Except Fault Value} (hplain : IsPlain result) :
    Sources steps (ofExcept result m) (Value.Sourced steps) := by
  cases result with
  | ok v => exact sources_ok h (Value.sourced_of_isPlain hplain)
  | error fault => exact sources_error h _

/-- The value of a variable has a known origin. -/
theorem sources_readVariable (name : String) (line : Nat) :
    Sources steps (readVariable name line m) (Value.Sourced steps) := by
  unfold readVariable
  cases hget : m.store.get? m.scope name with
  | some v => exact sources_ok h (h.of_get? hget)
  | none => exact sources_error h _

/-- A value of known origin may be assigned to any name but the receiver's. -/
theorem sources_writeVariable {name : String} (hname : name ≠ receiverName) {v : Value}
    (hv : v.Sourced steps) (line : Nat) :
    Sources steps (writeVariable name v line m) fun _ => True := by
  rw [writeVariable_eq]
  cases m.store.owner? m.scope name with
  | none => exact sources_error h _
  | some owner => exact sources_ok (h.define hname hv owner) trivial

/-- Printing leaves the origins as they are. -/
theorem sources_printLine (v : Value) : Sources steps (printLine v m) fun _ => True := by
  obtain ⟨sink, hok | ⟨fault, herror⟩⟩ := printLine_eq v m
  · rw [hok]
    exact sources_ok h trivial
  · rw [herror]
    exact sources_error (m := { m with sink := sink }) h _

end

/-! ## Points -/

/-- What a function is left with comes from the session. -/
def Flow.Sourced (steps : List Point) : Flow → Prop
  | .normal => True
  | .returned v => v.Sourced steps

/-- The values that are called come from the session. -/
def Task.Sourced (steps : List Point) : Task → Prop
  | .call callee arguments _ => callee.Sourced steps ∧ ∀ v ∈ arguments, v.Sourced steps
  | _ => True

/-- Whatever is at hand where the point begins comes from the session. -/
structure Point.Sourced (steps : List Point) (p : Point) : Prop where
  stands : ∃ bound?, Stands steps bound? p
  store : p.machine.store.Sourced steps
  task : p.task.Sourced steps

/-- Whatever is at hand where the point ends comes from the session. -/
def Point.Sources (steps : List Point) (p : Point) : Prop :=
  match p.task with
  | .expression e =>
    Quill.Sources steps (evaluateAtFuel p.fuel e p.machine) (Value.Sourced steps)
  | .expressions es =>
    Quill.Sources steps (Expr.evaluateAll (callAtFuel p.fuel) es p.machine)
      fun vs => ∀ v ∈ vs, v.Sourced steps
  | .statement s => Quill.Sources steps (executeAtFuel p.fuel s p.machine) (Flow.Sourced steps)
  | .statements body =>
    Quill.Sources steps (Stmt.executeAll (callAtFuel p.fuel) p.fuel body p.machine)
      (Flow.Sourced steps)
  | .loop condition body rounds =>
    Quill.Sources steps
      (loopAtFuel (evaluateAtFuel p.fuel condition) (executeAtFuel p.fuel body) rounds p.machine)
      (Flow.Sourced steps)
  | .call callee arguments line =>
    Quill.Sources steps (callAtFuel p.fuel callee arguments line p.machine) (Value.Sourced steps)

/-- In every point of the session the code of programs is ready to run. -/
def ReadySteps (steps : List Point) : Prop :=
  ∀ {p}, Reached steps p → (Store.receivers Stmt.Parsed).Ready p.machine ∧
    (Store.receivers Stmt.Parsed).Allows Stmt.Parsed p.machine p.task

/-- No name that code declares or assigns to is the receiver's. -/
theorem Targets.ne_receiverName {name : String} (h : Targets Stmt.Parsed name) :
    name ≠ receiverName :=
  fun heq => not_targets_receiverName (heq ▸ h)

section

variable {p q : Point}

/-- A point at which the origins are known is a part of the session. -/
theorem Point.Sourced.reached (h : p.Sourced steps) : Reached steps p := by
  obtain ⟨bound?, hstands⟩ := h.stands
  exact hstands.reached

/-- In every point of the session the code may do what it does. -/
theorem Point.Sourced.allows (h : p.Sourced steps) (hsteps : ReadySteps steps) :
    (Store.receivers Stmt.Parsed).Allows Stmt.Parsed p.machine p.task :=
  (hsteps h.reached).2

/-- Where a point ends, the origins in the store are known. -/
theorem Point.Sources.store (h : p.Sources steps) : p.ending.store.Sourced steps := by
  obtain ⟨fuel, task, m⟩ := p
  cases task with
  | _ => exact Quill.Sources.store h

/-- A part that is no body of a function. -/
theorem Point.Sourced.part (h : p.Sourced steps) (hcall : ¬p.IsCall) (hstep : Enters p q)
    (hstore : q.machine.store.Sourced steps) (htask : q.task.Sourced steps) :
    q.Sourced steps where
  stands := by
    obtain ⟨bound?, hstands⟩ := h.stands
    exact ⟨bound?, hstands.part hcall hstep⟩
  store := hstore
  task := htask

/-- What was evaluated first leaves a store with known origins. -/
theorem Sources.of_ok {α : Type} {x : Eval α} {m m' : Machine} {a : α} {yields : α → Prop}
    (h : Sources steps (x m) yields) (hok : x m = .ok a m') :
    m'.store.Sourced steps ∧ yields a := by
  have hstore := h.store
  rw [hok] at hstore
  exact ⟨hstore, h.yields hok⟩

end

/-! ## Parts of points -/

section

variable {m m₁ : Machine} {f : FunctionValue} {arguments : List Value}

/-- The function that runs when a value is called comes from the session. -/
theorem sourced_invoked? {fuel : Nat} {callee : Value} {line : Nat}
    (h : Point.Sourced steps ⟨fuel + 1, .call callee arguments line, m⟩)
    (hinvoked : m.invoked? callee = some (f, m₁))
    (harity : arguments.length = f.declaration.arity) :
    m₁.store.Sourced steps ∧ ∃ bound?, f.Belongs steps bound? := by
  cases callee with
  | function g =>
    cases hinvoked
    exact ⟨h.store, h.task.1⟩
  | classValue c =>
    have hbinds : Point.Binds ⟨fuel + 1, .call (.classValue c) arguments line, m⟩ _ :=
      .initializer hinvoked harity
    obtain ⟨method, -, rfl, rfl⟩ := exists_initializer_of_invoked? hinvoked
    exact ⟨(h.store.addObject c).bindMethod h.reached hbinds, _, .bound h.reached hbinds⟩
  | _ => cases hinvoked

/-- The parameters are bound to what the arguments are. -/
theorem Store.Sourced.entering (h : m.store.Sourced steps)
    (hf : f.declaration.Occurs Stmt.Parsed) (harguments : ∀ v ∈ arguments, v.Sourced steps) :
    (m.entering f arguments).store.Sourced steps := by
  refine (h.addScope _).defineAll _ fun binding hbinding => ?_
  obtain ⟨hname, hvalue⟩ := List.of_mem_zip hbinding
  obtain ⟨name, hmem, heq⟩ := List.mem_map.1 hname
  exact ⟨heq ▸ (Targets.parameter hf hmem).ne_receiverName, harguments _ hvalue⟩

end

/-- Every part begins with what is at hand, and with what the parts before it have come to. -/
theorem enters_sourced (hsteps : ReadySteps steps) {p q : Point}
    (hparts : ∀ {q}, Enters p q → q.Sourced steps → q.Sources steps) (hstep : Enters p q)
    (h : p.Sourced steps) : q.Sourced steps := by
  have hexpression : ∀ {fuel e m v m₁}, Enters p ⟨fuel, .expression e, m⟩ →
      Point.Sourced steps ⟨fuel, .expression e, m⟩ → evaluateAtFuel fuel e m = .ok v m₁ →
      m₁.store.Sourced steps ∧ v.Sourced steps :=
    fun hstep hq hok => Sources.of_ok (hparts hstep hq) hok
  have hstatement : ∀ {fuel s m flow m₁}, Enters p ⟨fuel, .statement s, m⟩ →
      Point.Sourced steps ⟨fuel, .statement s, m⟩ → executeAtFuel fuel s m = .ok flow m₁ →
      m₁.store.Sourced steps ∧ flow.Sourced steps :=
    fun hstep hq hok => Sources.of_ok (hparts hstep hq) hok
  cases hstep with
  | operand => exact h.part id .operand h.store trivial
  | left => exact h.part id .left h.store trivial
  | right hleft =>
    have hfirst := hexpression .left (h.part id .left h.store trivial) hleft
    exact h.part id (.right hleft) hfirst.1 trivial
  | inner => exact h.part id .inner h.store trivial
  | assigned => exact h.part id .assigned h.store trivial
  | callee => exact h.part id .callee h.store trivial
  | arguments hcallee =>
    have hfirst := hexpression .callee (h.part id .callee h.store trivial) hcallee
    exact h.part id (.arguments hcallee) hfirst.1 trivial
  | call hcallee harguments =>
    have hfirst := hexpression .callee (h.part id .callee h.store trivial) hcallee
    have hsecond := h.part id (.arguments hcallee) hfirst.1 trivial
    obtain ⟨hstore, hvalues⟩ := Sources.of_ok (hparts (.arguments hcallee) hsecond) harguments
    exact h.part id (.call hcallee harguments) hstore ⟨hfirst.2, hvalues⟩
  | ofGet => exact h.part id .ofGet h.store trivial
  | ofSet => exact h.part id .ofSet h.store trivial
  | set hobject =>
    have hfirst := hexpression .ofSet (h.part id .ofSet h.store trivial) hobject
    exact h.part id (.set hobject) hfirst.1 trivial
  | firstExpression => exact h.part id .firstExpression h.store trivial
  | otherExpressions hfirst =>
    have hstore := (hexpression .firstExpression
      (h.part id .firstExpression h.store trivial) hfirst).1
    exact h.part id (.otherExpressions hfirst) hstore trivial
  | effect => exact h.part id .effect h.store trivial
  | printed => exact h.part id .printed h.store trivial
  | initial => exact h.part id .initial h.store trivial
  | block => exact h.part id .block (h.store.addScope _) trivial
  | condition => exact h.part id .condition h.store trivial
  | thenBranch hcondition hv =>
    have hfirst := hexpression .condition (h.part id .condition h.store trivial) hcondition
    exact h.part id (.thenBranch hcondition hv) hfirst.1 trivial
  | elseBranch hcondition hv =>
    have hfirst := hexpression .condition (h.part id .condition h.store trivial) hcondition
    exact h.part id (.elseBranch hcondition hv) hfirst.1 trivial
  | loop => exact h.part id .loop h.store trivial
  | loopCondition => exact h.part id .loopCondition h.store trivial
  | loopBody hcondition hv =>
    have hfirst := hexpression .loopCondition
      (h.part id .loopCondition h.store trivial) hcondition
    exact h.part id (.loopBody hcondition hv) hfirst.1 trivial
  | again hcondition hv hbody =>
    have hfirst := hexpression .loopCondition
      (h.part id .loopCondition h.store trivial) hcondition
    have hsecond := hstatement (.loopBody hcondition hv)
      (h.part id (.loopBody hcondition hv) hfirst.1 trivial) hbody
    exact h.part id (.again hcondition hv hbody) hsecond.1 trivial
  | result => exact h.part id .result h.store trivial
  | firstStatement => exact h.part id .firstStatement h.store trivial
  | otherStatements hfirst =>
    have hstore := (hstatement .firstStatement
      (h.part id .firstStatement h.store trivial) hfirst).1
    exact h.part id (.otherStatements hfirst) hstore trivial
  | body hinvoked harity hdepth =>
    obtain ⟨hready, hallows⟩ := hsteps h.reached
    obtain ⟨hstore, bound?, hf⟩ := sourced_invoked? h hinvoked harity
    have hcode := Invariant.ready_invoked? (Store.kept_receivers not_targets_receiverName) hready
      hallows.1 hinvoked
    exact
      { stands := ⟨bound?, hf.stands h.reached (.body hinvoked harity hdepth)⟩
        store := hstore.entering hcode.2.2.1 h.task.2
        task := trivial }

/-! ## From the parts to the point -/

/-- Running in another scope keeps the origins known. -/
theorem sources_inScope {α : Type} {scope : ScopeId} {action : Eval α} {m : Machine}
    {yields : α → Prop} (h : Sources steps (action { m with scope := scope }) yields) :
    Sources steps (inScope scope action m) yields := by
  unfold inScope
  dsimp only
  cases hrun : action { m with scope := scope } with
  | ok a m' =>
    rw [hrun] at h
    exact sources_ok (m := { m' with scope := m.scope }) h.store (h.yields rfl)
  | error stop m' =>
    rw [hrun] at h
    exact sources_error (m := { m' with scope := m.scope }) h.store stop

/-- A method that is read from an object has that point for its origin. -/
theorem sources_readProperty {fuel : Nat} {object : Expr} {property : Name} {m m₁ : Machine}
    {id : ObjectId} (hp : Reached steps ⟨fuel, .expression (.get object property), m⟩)
    (hobject : evaluateAtFuel fuel object m = .ok (.object id) m₁) (h : m₁.store.Sourced steps) :
    Sources steps (readProperty id property m₁) (Value.Sourced steps) := by
  have hget : (get : Eval Machine) m₁ = .ok m₁ m₁ := rfl
  unfold readProperty
  rw [bind_eq_of_ok hget]
  cases hfound : m₁.store.object? id with
  | none => exact sources_error h _
  | some found =>
    dsimp only
    cases hfield : found.fields.get? property.text with
    | some v => exact sources_ok h (h.field hfound hfield)
    | none =>
      dsimp only
      cases hmethod : found.classOf.method? property.text with
      | none => exact sources_error h _
      | some method =>
        have hbinds := Point.Binds.read (m := m) hobject hfound hfield hmethod
        exact sources_ok (m := { m₁ with store := (m₁.store.bindMethod found.classOf method id).2 })
          (h.bindMethod hp hbinds) ⟨_, .bound hp hbinds⟩

/-- An expression keeps the origins known if its parts do. -/
theorem sources_expression (hsteps : ReadySteps steps) {fuel : Nat} {e : Expr} {m : Machine}
    (h : Point.Sourced steps ⟨fuel, .expression e, m⟩)
    (hparts : ∀ {q}, Enters ⟨fuel, .expression e, m⟩ q → q.Sources steps) :
    Sources steps (e.evaluate (callAtFuel fuel) m) (Value.Sourced steps) := by
  cases e with
  | literal value line =>
    rw [Expr.evaluate]
    refine sources_ok h.store (Value.sourced_of_isPlain ?_)
    cases value with
    | _ => trivial
  | unary operator operand =>
    rw [Expr.evaluate]
    refine Sources.bind (hparts .operand) fun v m₁ _ hs _ => ?_
    exact sources_ofExcept hs (isPlain_applyUnary _ _)
  | binary left operator right =>
    rw [Expr.evaluate]
    refine Sources.bind (hparts .left) fun a m₁ hleft _ _ => ?_
    refine Sources.bind (hparts (.right hleft)) fun b m₂ _ hs _ => ?_
    exact sources_ofExcept hs (isPlain_applyBinary _ _ _)
  | group inner => exact hparts .inner
  | reference name => exact sources_readVariable h.store _ _
  | assign name value =>
    rw [Expr.evaluate]
    refine Sources.bind (hparts .assigned) fun v m₁ _ hs hv => ?_
    have hname := (Targets.assigned (h.allows hsteps)).ne_receiverName
    refine Sources.bind (sources_writeVariable hs hname hv _) fun _ m₂ _ hs _ => ?_
    exact sources_ok hs hv
  | call callee arguments line =>
    rw [Expr.evaluate]
    refine Sources.bind (hparts .callee) fun f m₁ hcallee _ _ => ?_
    refine Sources.bind (hparts (.arguments hcallee)) fun values m₂ harguments _ _ => ?_
    exact hparts (.call hcallee harguments)
  | get object property =>
    rw [Expr.evaluate]
    refine Sources.bind (hparts .ofGet) fun target m₁ hobject hs _ => ?_
    cases target with
    | object id => exact sources_readProperty h.reached hobject hs
    | _ => exact sources_error hs _
  | set object property value =>
    rw [Expr.evaluate]
    refine Sources.bind (hparts .ofSet) fun target m₁ hobject hs _ => ?_
    cases target with
    | object id =>
      have hid : Sources steps (objectOf (.object id) property.line m₁) fun _ => True :=
        sources_ok hs trivial
      refine hid.bind ?_
      rintro _ _ ⟨⟩ - -
      refine Sources.bind (hparts (.set hobject)) fun v m₂ _ hs hv => ?_
      exact sources_ok (m := { m₂ with store := m₂.store.setField id property.text v })
        (hs.setField hv id property.text) hv
    | _ => exact sources_error hs _
  | this line => exact sources_readVariable h.store _ _

/-- Expressions keep the origins known if each of them does. -/
theorem sources_expressions {fuel : Nat} {es : List Expr} {m : Machine}
    (h : m.store.Sourced steps)
    (hparts : ∀ {q}, Enters ⟨fuel, .expressions es, m⟩ q → q.Sources steps) :
    Sources steps (Expr.evaluateAll (callAtFuel fuel) es m) fun vs => ∀ v ∈ vs, v.Sourced steps := by
  cases es with
  | nil => exact sources_ok h (List.forall_mem_nil _)
  | cons e rest =>
    rw [Expr.evaluateAll]
    refine Sources.bind (hparts .firstExpression) fun v m₁ hfirst _ hv => ?_
    refine Sources.bind (hparts (.otherExpressions hfirst)) fun vs m₂ _ hs hvs => ?_
    exact sources_ok hs (List.forall_mem_cons.2 ⟨hv, hvs⟩)

/-- A statement keeps the origins known if its parts do. -/
theorem sources_statement (hsteps : ReadySteps steps) {fuel : Nat} {s : Stmt} {m : Machine}
    (h : Point.Sourced steps ⟨fuel, .statement s, m⟩)
    (hparts : ∀ {q}, Enters ⟨fuel, .statement s, m⟩ q → q.Sources steps) :
    Sources steps (s.execute (callAtFuel fuel) fuel m) (Flow.Sourced steps) := by
  have hoccurs := h.allows hsteps
  cases s with
  | expression value =>
    rw [Stmt.execute]
    exact Sources.bind (hparts .effect) fun v m₁ _ hs _ => sources_ok hs trivial
  | print value =>
    rw [Stmt.execute]
    refine Sources.bind (hparts .printed) fun v m₁ _ hs _ => ?_
    exact Sources.bind (sources_printLine hs v) fun _ m₂ _ hs _ => sources_ok hs trivial
  | declare name initial =>
    have hname := (Targets.variable hoccurs).ne_receiverName
    have hdeclare : ∀ {v m₁}, m₁.store.Sourced steps → v.Sourced steps →
        Sources steps ((do
          declareVariable name.text v
          return .normal : Eval Flow) m₁) (Flow.Sourced steps) := by
      intro v m₁ hs hv
      exact sources_ok (m := { m₁ with store := m₁.store.define m₁.scope name.text v })
        (hs.define hname hv _) trivial
    rw [Stmt.execute]
    cases initial with
    | none => exact hdeclare h.store trivial
    | some value => exact Sources.bind (hparts .initial) fun v m₁ _ hs hv => hdeclare hs hv
  | block body =>
    rw [Stmt.execute]
    exact sources_inScope (m := { m with store := (m.store.addChild m.scope).2 }) (hparts .block)
  | branch condition thenBranch elseBranch =>
    cases elseBranch with
    | none =>
      rw [Stmt.execute]
      refine Sources.bind (hparts .condition) fun v m₁ hcondition hs _ => ?_
      by_cases hv : v.isTruthy = true
      · rw [if_pos hv]
        exact hparts (.thenBranch hcondition hv)
      · rw [if_neg hv]
        exact sources_ok hs trivial
    | some elseBranch =>
      rw [Stmt.execute]
      refine Sources.bind (hparts .condition) fun v m₁ hcondition hs _ => ?_
      by_cases hv : v.isTruthy = true
      · rw [if_pos hv]
        exact hparts (.thenBranch hcondition hv)
      · rw [if_neg hv]
        exact hparts (.elseBranch hcondition (Bool.not_eq_true v.isTruthy ▸ hv))
  | loop condition body => exact hparts .loop
  | leave line value =>
    rw [Stmt.execute]
    cases value with
    | none => exact sources_ok h.store trivial
    | some value => exact Sources.bind (hparts .result) fun v m₁ _ hs hv => sources_ok hs hv
  | function declaration =>
    have hname := (Targets.function hoccurs).ne_receiverName
    obtain ⟨bound?, hstands⟩ := h.stands
    have hadded : (m.store.addFunction declaration m.scope).2.Sourced steps :=
      h.store.congr rfl rfl
    have hf : (Value.function (m.store.addFunction declaration m.scope).1).Sourced steps :=
      ⟨bound?, .declared hstands .function⟩
    have hdeclared := hadded.define hname hf m.scope
    exact sources_ok (m := ⟨_, m.scope, m.depth, m.sink⟩) hdeclared trivial
  | classOf declaration =>
    have hname := (Targets.classOf hoccurs).ne_receiverName
    have hadded : (m.store.addClass declaration m.scope).2.Sourced steps :=
      h.store.congr rfl rfl
    have hdeclared := hadded.define hname
      (v := .classValue (m.store.addClass declaration m.scope).1) trivial m.scope
    exact sources_ok (m := ⟨_, m.scope, m.depth, m.sink⟩) hdeclared trivial

/-- Statements keep the origins known if each of them does. -/
theorem sources_statements {fuel : Nat} {body : List Stmt} {m : Machine}
    (h : m.store.Sourced steps)
    (hparts : ∀ {q}, Enters ⟨fuel, .statements body, m⟩ q → q.Sources steps) :
    Sources steps (Stmt.executeAll (callAtFuel fuel) fuel body m) (Flow.Sourced steps) := by
  cases body with
  | nil => exact sources_ok h trivial
  | cons s rest =>
    rw [Stmt.executeAll]
    refine Sources.bind (hparts .firstStatement) fun flow m₁ hfirst hs hflow => ?_
    cases flow with
    | normal => exact hparts (.otherStatements hfirst)
    | returned v => exact sources_ok hs hflow

/-- A loop keeps the origins known if its condition and body do. -/
theorem sources_loop {fuel rounds : Nat} {condition : Expr} {body : Stmt} {m : Machine}
    (h : m.store.Sourced steps)
    (hparts : ∀ {q}, Enters ⟨fuel, .loop condition body rounds, m⟩ q → q.Sources steps) :
    Sources steps
      (loopAtFuel (evaluateAtFuel fuel condition) (executeAtFuel fuel body) rounds m)
      (Flow.Sourced steps) := by
  cases rounds with
  | zero => exact sources_error h _
  | succ rounds =>
    rw [loopAtFuel]
    refine Sources.bind (hparts .loopCondition) fun v m₁ hcondition hs _ => ?_
    by_cases hv : v.isTruthy = true
    · rw [if_pos hv]
      refine Sources.bind (hparts (.loopBody hcondition hv)) fun flow m₂ hbody hs hflow => ?_
      cases flow with
      | normal => exact hparts (.again hcondition hv hbody)
      | returned w => exact sources_ok hs hflow
    · rw [if_neg hv]
      exact sources_ok hs trivial

/-- Calling a function keeps the origins known if its body does. -/
theorem sources_callFunction {run : List Stmt → Eval Flow} {f : FunctionValue}
    {arguments : List Value} {line : Nat} {m : Machine} (h : m.store.Sourced steps)
    (hbody : arguments.length = f.declaration.arity → m.depth < maxCallDepth →
      Sources steps (run f.declaration.body (m.entering f arguments)) (Flow.Sourced steps)) :
    Sources steps (callFunction run f arguments line m) (Value.Sourced steps) := by
  rw [callFunction_eq]
  split
  · exact sources_error h _
  next harity =>
  split
  · exact sources_error h _
  next hdepth =>
  have hresult := hbody (Decidable.of_not_not harity) (Nat.not_le.1 hdepth)
  cases hrun : run f.declaration.body (m.entering f arguments) with
  | error stop m' =>
    rw [hrun] at hresult
    exact sources_error (m := { m' with scope := m.scope, depth := m'.depth - 1 }) hresult.store _
  | ok flow m' =>
    rw [hrun] at hresult
    have hflow := hresult.yields rfl
    cases flow with
    | normal =>
      exact sources_ok (m := { m' with scope := m.scope, depth := m'.depth - 1 }) hresult.store trivial
    | returned v =>
      exact sources_ok (m := { m' with scope := m.scope, depth := m'.depth - 1 }) hresult.store hflow

/-- A call keeps the origins known if the body that it runs does. -/
theorem sources_call {fuel : Nat} {callee : Value} {arguments : List Value} {line : Nat}
    {m : Machine} (h : Point.Sourced steps ⟨fuel, .call callee arguments line, m⟩)
    (hparts : ∀ {q}, Enters ⟨fuel, .call callee arguments line, m⟩ q → q.Sources steps) :
    Sources steps (callAtFuel fuel callee arguments line m) (Value.Sourced steps) := by
  cases fuel with
  | zero => exact sources_error h.store _
  | succ fuel =>
    rw [callAtFuel]
    cases callee with
    | function f =>
      exact sources_callFunction h.store fun harity hdepth => hparts (.body rfl harity hdepth)
    | classValue c =>
      show Sources steps (construct _ c arguments line m) _
      by_cases harity : arguments.length = c.arity
      · cases hinitializer : c.initializer? with
        | none =>
          rw [construct, if_neg (not_not_intro harity)]
          simp only [hinitializer]
          exact sources_ok (m := ⟨_, m.scope, m.depth, m.sink⟩) (h.store.addObject c) trivial
        | some method =>
          obtain ⟨f, m₁, hinvoked, hf⟩ := exists_invoked? m hinitializer
          have harity' : arguments.length = f.declaration.arity := by
            rw [harity, arity_of_initializer? hinitializer, hf]
          have hdepth := depth_of_invoked? hinvoked
          rw [construct_eq_of_invoked? _ hinvoked harity' line]
          refine Sources.bind (sources_callFunction (sourced_invoked? h hinvoked harity').1
            fun _ hlt => hparts (.body hinvoked harity' (hdepth ▸ hlt))) fun _ m₂ _ hs _ => ?_
          exact sources_ok hs trivial
      · rw [construct, if_pos harity]
        exact sources_error h.store _
    | _ => exact sources_error h.store _

/-- **Origins are known** wherever a point ends, if they are where it begins. -/
theorem Point.sources (hsteps : ReadySteps steps) {p : Point} (h : p.Sourced steps) :
    p.Sources steps := by
  have hparts : ∀ {q}, Enters p q → q.Sourced steps → q.Sources steps :=
    fun hstep hq => Point.sources hsteps hq
  have hall : ∀ {q}, Enters p q → q.Sources steps :=
    fun hstep => hparts hstep (enters_sourced hsteps hparts hstep h)
  obtain ⟨fuel, task, m⟩ := p
  cases task with
  | expression e => exact sources_expression hsteps h hall
  | expressions es => exact sources_expressions h.store hall
  | statement s => exact sources_statement hsteps h hall
  | statements body => exact sources_statements h.store hall
  | loop condition body rounds => exact sources_loop h.store hall
  | call callee arguments line => exact sources_call h hall
termination_by p.rank
decreasing_by exact hstep.rank_lt

end Quill