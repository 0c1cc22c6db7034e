import Quill.Proofs.Evaluation.Endings

/-!
# Methods and their receivers

A method is made into a function for one object where it is read from the object, and where the class
is called of which it is the initializer; the object is then a new one. `Point.Binds` says at which
points of a session this happens, and for which object.

`Stands` says in which bound method a point stands: the innermost one around it in the text. What a
step begins with stands in none, and every part stands where the whole does. The body of a function
stands where the function was declared, whoever calls it, and the body of a bound method stands in
the bound method. So what stands in a bound method is part of its text (`Stands.occurs`).
-/

namespace Quill

open Eval

/-! ## Binding, declaring and calling -/

/-- A method that was made into a function for an object. -/
structure BoundMethod where
  /-- The function. -/
  function : FunctionValue
  /-- The object. -/
  receiver : ObjectId

/-- The receiver as a value. -/
def BoundMethod.this (bound : BoundMethod) : Value := .object bound.receiver

namespace Point

/-- A method is made into a function at the point. -/
inductive Binds : Point → BoundMethod → Prop
  /-- It is read from the object. -/
  | read {fuel m object property id m₁ found method}
    (hobject : evaluateAtFuel fuel object m = .ok (.object id) m₁)
    (hfound : m₁.store.object? id = some found)
    (hfield : found.fields.get? property.text = none)
    (hmethod : found.classOf.method? property.text = some method) :
    Binds ⟨fuel, .expression (.get object property), m⟩
      ⟨(m₁.store.bindMethod found.classOf method id).1, id⟩
  /-- It is the initializer of a class that is called, and the object is the new one. -/
  | initializer {fuel m c arguments line f m₁}
    (hinvoked : m.invoked? (.classValue c) = some (f, m₁))
    (harity : arguments.length = f.declaration.arity) :
    Binds ⟨fuel + 1, .call (.classValue c) arguments line, m⟩ ⟨f, ⟨m.store.objects.size⟩⟩

/-- A function is declared at the point. -/
inductive Declares : Point → FunctionValue → Prop
  | function {fuel m declaration} :
    Declares ⟨fuel, .statement (.function declaration), m⟩
      (m.store.addFunction declaration m.scope).1

/-- A function is called at the first point, and its body runs at the second. -/
inductive Calls : Point → FunctionValue → Point → Prop
  | body {fuel m callee arguments line f m₁} (hinvoked : m.invoked? callee = some (f, m₁))
    (harity : arguments.length = f.declaration.arity) (hdepth : m.depth < maxCallDepth) :
    Calls ⟨fuel + 1, .call callee arguments line, m⟩ f
      ⟨fuel, .statements f.declaration.body, m₁.entering f arguments⟩

/-- Calling a function enters its body. -/
theorem Calls.enters {p q : Point} {f : FunctionValue} (h : p.Calls f q) : Enters p q := by
  obtain ⟨hinvoked, harity, hdepth⟩ := h
  exact .body hinvoked harity hdepth

end Point

/-! ## Points of a session -/

/-- The point is a part of one of the steps. -/
def Reached (steps : List Point) (q : Point) : Prop := ∃ p ∈ steps, Reaches p q

/-- The point stands in the bound method, or in none. -/
inductive Stands (steps : List Point) : Option BoundMethod → Point → Prop
  | top {p} (h : p ∈ steps) : Stands steps none p
  | part {bound? p q} (h : Stands steps bound? p) (hcall : ¬p.IsCall) (hstep : Enters p q) :
    Stands steps bound? q
  | function {bound? p f c q} (h : Stands steps bound? p) (hdeclares : p.Declares f)
    (hc : Reached steps c) (hcalls : c.Calls f q) : Stands steps bound? q
  | method {bound p c q} (hp : Reached steps p) (hbinds : p.Binds bound) (hc : Reached steps c)
    (hcalls : c.Calls bound.function q) : Stands steps (some bound) q

/-- The body of the function stands in the bound method, or in none. -/
inductive FunctionValue.Belongs (steps : List Point) : Option BoundMethod → FunctionValue → Prop
  | declared {bound? p f} (h : Stands steps bound? p) (hdeclares : p.Declares f) :
    FunctionValue.Belongs steps bound? f
  | bound {bound p} (hp : Reached steps p) (hbinds : p.Binds bound) :
    FunctionValue.Belongs steps (some bound) bound.function

section

variable {steps steps' : List Point} {bound? : Option BoundMethod} {p q : Point}

/-- The last step is reached. -/
theorem Reached.head (p : Point) (steps : List Point) : Reached (p :: steps) p :=
  ⟨p, List.mem_cons_self, .refl⟩

/-- What a point that is reached enters is reached too. -/
theorem Reached.enters (h : Reached steps p) (hstep : Enters p q) : Reached steps q := by
  obtain ⟨first, hfirst, hreaches⟩ := h
  exact ⟨first, hfirst, hreaches.step hstep⟩

/-- What is reached stays so when further steps are made. -/
theorem Reached.mono (h : Reached steps p) (hsteps : steps ⊆ steps') : Reached steps' p := by
  obtain ⟨first, hfirst, hreaches⟩ := h
  exact ⟨first, hsteps hfirst, hreaches⟩

/-- A point that stands in a method, or in none, is reached. -/
theorem Stands.reached (h : Stands steps bound? p) : Reached steps p := by
  induction h with
  | top h => exact ⟨_, h, .refl⟩
  | part _ _ hstep ih => exact ih.enters hstep
  | function _ _ hc hcalls => exact hc.enters hcalls.enters
  | method _ _ hc hcalls => exact hc.enters hcalls.enters

/-- Where a point stands does not change when further steps are made. -/
theorem Stands.mono (h : Stands steps bound? p) (hsteps : steps ⊆ steps') :
    Stands steps' bound? p := by
  induction h with
  | top h => exact .top (hsteps h)
  | part _ hcall hstep ih => exact .part ih hcall hstep
  | function _ hdeclares hc hcalls ih => exact .function ih hdeclares (hc.mono hsteps) hcalls
  | method hp hbinds hc hcalls => exact .method (hp.mono hsteps) hbinds (hc.mono hsteps) hcalls

/-- Where a function belongs does not change when further steps are made. -/
theorem FunctionValue.Belongs.mono {f : FunctionValue} (h : f.Belongs steps bound?)
    (hsteps : steps ⊆ steps') : f.Belongs steps' bound? := by
  cases h with
  | declared h hdeclares => exact .declared (h.mono hsteps) hdeclares
  | bound hp hbinds => exact .bound (hp.mono hsteps) hbinds

/-- The body of a function that is called stands where the function belongs. -/
theorem FunctionValue.Belongs.stands {f : FunctionValue} (h : f.Belongs steps bound?)
    (hp : Reached steps p) (hcalls : p.Calls f q) : Stands steps bound? q := by
  cases h with
  | declared h hdeclares => exact .function h hdeclares hp hcalls
  | bound hbound hbinds => exact .method hbound hbinds hp hcalls

end

/-! ## The text of methods -/

/-- What is done stands in the code. The values of a call stand nowhere. -/
def Task.Occurs (code : Stmt → Prop) : Task → Prop
  | .expression e => e.Occurs code
  | .expressions es => ∀ e ∈ es, e.Occurs code
  | .statement s => s.Occurs code
  | .statements body => ∀ s ∈ body, s.Occurs code
  | .loop condition body _ => condition.Occurs code ∧ body.Occurs code
  | .call _ _ _ => True

/-- The parts stand in the code in which the whole does, but for the body of a function. -/
theorem Enters.occurs {code : Stmt → Prop} {p q : Point} (hstep : Enters p q) (hcall : ¬p.IsCall)
    (h : p.task.Occurs code) : q.task.Occurs code := by
  cases hstep with
  | operand => exact h.operand
  | left => exact h.left
  | right => exact h.right
  | inner => exact h.inner
  | assigned => exact h.assigned
  | callee => exact h.callee
  | arguments => exact fun e he => h.argument he
  | call => trivial
  | ofGet => exact h.ofGet
  | ofSet => exact h.ofSet
  | set => exact h.set
  | firstExpression => exact h _ List.mem_cons_self
  | otherExpressions => exact (List.forall_mem_cons.1 h).2
  | effect => exact .effect h
  | printed => exact .printed h
  | initial => exact .initial h
  | block => exact fun s hs => h.block hs
  | condition => exact .condition h
  | thenBranch => exact h.thenBranch
  | elseBranch => exact h.elseBranch
  | loop => exact ⟨.loopCondition h, h.loop⟩
  | loopCondition => exact h.1
  | loopBody => exact h.2
  | again => exact h
  | result => exact .result h
  | firstStatement => exact h _ List.mem_cons_self
  | otherStatements => exact (List.forall_mem_cons.1 h).2
  | body => exact absurd trivial hcall

/-- What stands in a bound method is part of its text. -/
theorem Stands.occurs {steps : List Point} {bound : BoundMethod} {q : Point}
    (h : Stands steps (some bound) q) :
    q.task.Occurs (· ∈ bound.function.declaration.body) := by
  generalize hbound : some bound = bound? at h
  induction h with
  | top => cases hbound
  | part _ hcall hstep ih => exact hstep.occurs hcall (ih hbound)
  | function _ hdeclares _ hcalls ih =>
    cases hdeclares with
    | function =>
      cases hcalls with
      | body => exact fun s hs => (ih hbound).function hs
  | method _ _ _ hcalls =>
    cases hbound
    cases hcalls with
    | body => exact fun s hs => .top hs

end Quill
