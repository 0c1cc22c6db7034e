import Quill.Proofs.Evaluation.Regions
import Quill.Proofs.Evaluation.Restoration

/-!
# Programs without loops always finish

Without loops, all that a run repeats it repeats through calls, and no more than `maxCallDepth` of
them are ever open. So the evaluator needs no fuel for such programs: `callAtDepth` goes by
recursion on the calls that may still be opened, and inside a call by recursion on the tree. It
never stops as unfinished, and with any fuel beyond `maxCallDepth` the evaluator with fuel does the
same (`loop_free_finishes`).

A run can call any function that it gets hold of, so all of these have to be without loops. That is
what `Region` is for: from the fresh global scope only functions are reached that the program has
declared.
-/

namespace Quill

/-! ## Trees without loops -/

mutual

/-- There is no loop in the statement, nor in the functions and methods that it declares. -/
def Stmt.loopFree : Stmt → Bool
  | .block body => Stmt.listLoopFree body
  | .branch _ thenBranch none => thenBranch.loopFree
  | .branch _ thenBranch (some elseBranch) => thenBranch.loopFree && elseBranch.loopFree
  | .loop _ _ => false
  | .function declaration => declaration.loopFree
  | .classOf ⟨_, methods⟩ => FunctionDecl.listLoopFree methods
  | _ => true

/-- There is no loop in any of the statements. -/
def Stmt.listLoopFree : List Stmt → Bool
  | [] => true
  | s :: rest => s.loopFree && Stmt.listLoopFree rest

/-- There is no loop in the body of the function. -/
def FunctionDecl.loopFree : FunctionDecl → Bool
  | ⟨_, _, body⟩ => Stmt.listLoopFree body

/-- There is no loop in any of the functions. -/
def FunctionDecl.listLoopFree : List FunctionDecl → Bool
  | [] => true
  | f :: rest => f.loopFree && FunctionDecl.listLoopFree rest

end

/-- Methods are free of loops just if each of them is. -/
theorem FunctionDecl.listLoopFree_iff {methods : List FunctionDecl} :
    FunctionDecl.listLoopFree methods = true ↔ ∀ f ∈ methods, f.loopFree = true := by
  induction methods with
  | nil => simp [FunctionDecl.listLoopFree]
  | cons f rest ih => simp [FunctionDecl.listLoopFree, ih]

/-- A function is free of loops just if its body is. -/
theorem FunctionDecl.loopFree_eq (f : FunctionDecl) : f.loopFree = Stmt.listLoopFree f.body := by
  cases f with
  | mk name params body => rw [FunctionDecl.loopFree]

/-- There is no loop anywhere in the program. -/
def Program.loopFree (program : Program) : Bool :=
  Stmt.listLoopFree program.declarations

/-! ## Evaluation without fuel -/

/-- Calls a value while so many calls are open. Loops are not repeated. -/
def callAtDepth (depth : Nat) : Caller :=
  callWith fun body =>
    if depth < maxCallDepth then Stmt.executeAll (callAtDepth (depth + 1)) 0 body
    else throw .unfinished
termination_by maxCallDepth - depth

/-- Runs a program without loops from a fresh global scope, and passes on what it printed. -/
def runLoopFree (program : Program) : Eval Unit := fun m =>
  Eval.flushing (do
    let _ ← Stmt.executeAll (callAtDepth 0) 0 program.declarations
    return ()) m.restart

/-! ## Agreement -/

/-- The functions of a run without loops. -/
def Region.LoopFree (R : Region) : Prop :=
  ∀ f, R.functions f ↔ f.loopFree = true

namespace Eval

variable {α β : Type} {R : Region} {depth : Nat}

/-- The result is a value of the given kind in a state in which so many calls are open and nothing
outside the region is reached, or a stop that is not for want of fuel. -/
def Settled (R : Region) (depth : Nat) (Q : α → Prop) : EStateM.Result Stop Machine α → Prop
  | .ok a m => m.Within R ∧ m.depth = depth ∧ Q a
  | .error stop _ => stop ≠ .unfinished

/-- While so many calls are open, the actions do the same, and what they do is settled. -/
def Settles (R : Region) (depth : Nat) (x y : Eval α) (Q : α → Prop) : Prop :=
  ∀ m : Machine, m.Within R → m.depth = depth → x m = y m ∧ Settled R depth Q (y m)

/-- A value that has the property settles. -/
theorem settles_pure {Q : α → Prop} {a : α} (ha : Q a) :
    Settles R depth (pure a) (pure a) Q :=
  fun _ hm hdepth => ⟨rfl, hm, hdepth, ha⟩

/-- A fault settles. -/
theorem settles_fail (cause : FaultCause) (line : Nat) (Q : α → Prop) :
    Settles R depth (fail cause line) (fail cause line) Q :=
  fun _ _ _ => ⟨rfl, nofun⟩

/-- Sequences settle if their parts do, the rests for values with the property. -/
theorem Settles.bind {x y : Eval α} {f g : α → Eval β} {Q : α → Prop} {Q' : β → Prop}
    (hx : Settles R depth x y Q) (hf : ∀ a, Q a → Settles R depth (f a) (g a) Q') :
    Settles R depth (x >>= f) (y >>= g) Q' := by
  intro m hm hdepth
  obtain ⟨heq, hsettled⟩ := hx m hm hdepth
  cases hy : y m with
  | error stop m' =>
    rw [hy] at heq hsettled
    rw [bind_eq_of_error heq, bind_eq_of_error hy]
    exact ⟨rfl, hsettled⟩
  | ok a m' =>
    rw [hy] at heq hsettled
    obtain ⟨hm', hdepth', ha⟩ := hsettled
    rw [bind_eq_of_ok heq, bind_eq_of_ok hy]
    exact hf a ha m' hm' hdepth'

/-- What is done with the innermost scope. -/
theorem settles_bind_get {f g : Machine → Eval β} {Q : β → Prop}
    (h : ∀ m, m.Within R → m.depth = depth →
      f m m = g m m ∧ Settled R depth Q (g m m)) :
    Settles R depth (get >>= f) (get >>= g) Q :=
  fun m hm hdepth => h m hm hdepth

/-- A change to the store settles if it stays within the region. -/
theorem settles_withStore {f : Store → α × Store} {Q : α → Prop}
    (h : ∀ s : Store, s.Within R → (f s).2.Within R ∧ Q (f s).1) :
    Settles R depth (withStore f) (withStore f) Q := by
  intro m hm hdepth
  obtain ⟨hstore, hQ⟩ := h m.store hm.store
  exact ⟨rfl, ⟨hstore, hm.scope⟩, hdepth, hQ⟩

/-- A plain result settles. -/
theorem settles_ofExcept {result : Except Fault Value} (h : IsPlain result) :
    Settles R depth (ofExcept result) (ofExcept result) (Value.Within R) := by
  cases result with
  | error fault => exact fun _ _ _ => ⟨rfl, nofun⟩
  | ok v =>
    refine settles_pure ?_
    cases v with
    | function f => exact h.elim
    | classValue c => exact h.elim
    | object id => exact h.elim
    | _ => trivial

/-- Reading a variable settles, with a value of the region. -/
theorem settles_readVariable (name : String) (line : Nat) :
    Settles R depth (readVariable name line) (readVariable name line) (Value.Within R) := by
  intro m hm hdepth
  refine ⟨rfl, ?_⟩
  unfold readVariable
  cases hget : m.store.get? m.scope name with
  | none => exact nofun
  | some v => exact ⟨hm, hdepth, hm.store.of_get? hm.scope hget⟩

/-- Assigning a value of the region settles. -/
theorem settles_writeVariable (name : String) {v : Value} (hv : v.Within R) (line : Nat) :
    Settles R depth (writeVariable name v line) (writeVariable name v line) fun _ => True := by
  intro m hm hdepth
  refine ⟨rfl, ?_⟩
  rw [writeVariable_eq]
  cases m.store.owner? m.scope name with
  | none => exact nofun
  | some owner => exact ⟨⟨hm.store.define hv owner name, hm.scope⟩, hdepth, trivial⟩

/-- Declaring a variable for a value of the region settles. -/
theorem settles_declareVariable (name : String) {v : Value} (hv : v.Within R) :
    Settles R depth (declareVariable name v) (declareVariable name v) fun _ => True :=
  fun m hm hdepth => ⟨rfl, ⟨hm.store.define hv m.scope name, hm.scope⟩, hdepth, trivial⟩

/-- Printing settles. -/
theorem settles_printLine (v : Value) :
    Settles R depth (printLine v) (printLine v) fun _ => True := by
  intro m hm hdepth
  refine ⟨rfl, ?_⟩
  obtain ⟨sink, hok | ⟨fault, herror⟩⟩ := printLine_eq v m
  · rw [hok]
    exact ⟨⟨hm.store, hm.scope⟩, hdepth, trivial⟩
  · rw [herror]
    exact nofun

/-- What settles does so in another scope of the region. -/
theorem settles_inScope {scope : ScopeId} (hscope : R.scopes ≤ scope.index) {x y : Eval α}
    {Q : α → Prop} (h : Settles R depth x y Q) :
    Settles R depth (inScope scope x) (inScope scope y) Q := by
  intro m hm hdepth
  obtain ⟨heq, hsettled⟩ := h { m with scope := scope } ⟨hm.store, hscope⟩ hdepth
  unfold inScope
  dsimp only
  rw [heq]
  refine ⟨rfl, ?_⟩
  cases hy : y { m with scope := scope } with
  | error stop m' =>
    rw [hy] at hsettled
    exact hsettled
  | ok a m' =>
    rw [hy] at hsettled
    obtain ⟨hm', hdepth', ha⟩ := hsettled
    exact ⟨⟨hm'.store, hm.scope⟩, hdepth', ha⟩

end Eval

open Eval

section

variable {R : Region} {depth : Nat}

/-! ## Expressions -/

/-- Asking for an object settles, with an object of the region. -/
theorem settles_objectOf {v : Value} (hv : v.Within R) (line : Nat) :
    Settles R depth (objectOf v line) (objectOf v line) fun id => R.objects ≤ id.index := by
  cases v with
  | object id => exact settles_pure hv
  | _ => exact settles_fail _ _ _

/-- Binding a method of the region to one of its objects settles. -/
theorem settles_bindMethod {c : ClassValue} (hc : (Value.classValue c).Within R)
    {method : FunctionDecl} (hmethod : R.functions method) {id : ObjectId}
    (hid : R.objects ≤ id.index) :
    Settles R depth (withStore fun s => s.bindMethod c method id)
      (withStore fun s => s.bindMethod c method id) fun f => (Value.function f).Within R :=
  settles_withStore fun _ hs => hs.bindMethod hc hmethod hid

/-- Reading a property of an object of the region settles. -/
theorem settles_readProperty {id : ObjectId} (hid : R.objects ≤ id.index) (property : Name) :
    Settles R depth (readProperty id property) (readProperty id property) (Value.Within R) := by
  refine settles_bind_get fun m hm hdepth => ?_
  cases hobject : m.store.object? id with
  | none => exact settles_fail _ _ _ m hm hdepth
  | some object =>
    dsimp only
    cases hfield : object.fields.get? property.text with
    | some v => exact settles_pure (hm.store.field hid hobject hfield) m hm hdepth
    | none =>
      dsimp only
      cases hmethod : object.classOf.method? property.text with
      | none => exact settles_fail _ _ _ m hm hdepth
      | some method =>
        have hclass := hm.store.classOf hid hobject
        have hmethod' := ClassValue.functions_of_method? hmethod hclass
        exact ((settles_bindMethod hclass hmethod' hid).bind
          fun f hf => settles_pure hf) m hm hdepth

/-- Calls agree and settle, of values and with arguments that lead to nothing but the region. -/
def CallsSettle (R : Region) (depth : Nat) (call call' : Caller) : Prop :=
  ∀ (f : Value) (arguments : List Value) (line : Nat), f.Within R → (∀ v ∈ arguments, v.Within R) →
    Settles R depth (call f arguments line) (call' f arguments line) (Value.Within R)

mutual

/-- An expression settles if calls do. -/
theorem Expr.settles {call call' : Caller} (hcalls : CallsSettle R depth call call') :
    (e : Expr) → Settles R depth (e.evaluate call) (e.evaluate call') (Value.Within R)
  | .literal value line => by
    rw [Expr.evaluate, Expr.evaluate]
    exact settles_pure (Value.within_ofLiteral value)
  | .unary operator operand => by
    rw [Expr.evaluate, Expr.evaluate]
    refine (Expr.settles hcalls operand).bind fun v _ => ?_
    exact settles_ofExcept (isPlain_applyUnary operator v)
  | .binary left operator right => by
    rw [Expr.evaluate, Expr.evaluate]
    refine (Expr.settles hcalls left).bind fun a _ => ?_
    refine (Expr.settles hcalls right).bind fun b _ => ?_
    exact settles_ofExcept (isPlain_applyBinary operator a b)
  | .group inner => by
    rw [Expr.evaluate, Expr.evaluate]
    exact Expr.settles hcalls inner
  | .reference name => by
    rw [Expr.evaluate, Expr.evaluate]
    exact settles_readVariable _ _
  | .assign name value => by
    rw [Expr.evaluate, Expr.evaluate]
    refine (Expr.settles hcalls value).bind fun v hv => ?_
    exact (settles_writeVariable _ hv _).bind fun _ _ => settles_pure hv
  | .call callee arguments line => by
    rw [Expr.evaluate, Expr.evaluate]
    refine (Expr.settles hcalls callee).bind fun f hf => ?_
    exact (Expr.listSettles hcalls arguments).bind fun values hvalues =>
      hcalls f values line hf hvalues
  | .get object property => by
    rw [Expr.evaluate, Expr.evaluate]
    refine (Expr.settles hcalls object).bind fun v hv => ?_
    exact (settles_objectOf hv _).bind fun id hid => settles_readProperty hid property
  | .set object property value => by
    rw [Expr.evaluate, Expr.evaluate]
    refine (Expr.settles hcalls object).bind fun target htarget => ?_
    refine (settles_objectOf htarget _).bind fun id _ => ?_
    refine (Expr.settles hcalls value).bind fun v hv => ?_
    have hset : Settles R depth (withStore fun s => ((), s.setField id property.text v))
        (withStore fun s => ((), s.setField id property.text v)) fun _ => True :=
      settles_withStore fun s hs => ⟨hs.setField hv id property.text, trivial⟩
    exact hset.bind fun _ _ => settles_pure hv
  | .this line => by
    rw [Expr.evaluate, Expr.evaluate]
    exact settles_readVariable _ _

/-- Expressions settle if calls do, with values of the region. -/
theorem Expr.listSettles {call call' : Caller} (hcalls : CallsSettle R depth call call') :
    (es : List Expr) → Settles R depth (Expr.evaluateAll call es) (Expr.evaluateAll call' es)
      fun values => ∀ v ∈ values, v.Within R
  | [] => by
    rw [Expr.evaluateAll, Expr.evaluateAll]
    exact settles_pure nofun
  | e :: rest => by
    rw [Expr.evaluateAll, Expr.evaluateAll]
    refine (Expr.settles hcalls e).bind fun v hv => ?_
    refine (Expr.listSettles hcalls rest).bind fun values hvalues => settles_pure ?_
    exact List.forall_mem_cons.2 ⟨hv, hvalues⟩

end

/-- An expression that may be missing settles if calls do. -/
theorem Expr.optionSettles {call call' : Caller} (hcalls : CallsSettle R depth call call')
    (e : Option Expr) :
    Settles R depth (Expr.evaluateOption call e) (Expr.evaluateOption call' e)
      (Value.Within R) := by
  cases e with
  | none => exact settles_pure trivial
  | some e => exact Expr.settles hcalls e

/-! ## Statements -/

/-- The value with which a function is left leads to nothing but the region. -/
def Flow.Within (R : Region) : Flow → Prop
  | .normal => True
  | .returned v => v.Within R

/-- Declaring a function of the region settles. -/
theorem settles_declareFunction {f : FunctionDecl} (hf : R.functions f) :
    Settles R depth (declareFunction f) (declareFunction f) fun _ => True := by
  refine settles_bind_get fun m hm hdepth => ?_
  have hfunction : Settles R depth (withStore fun s => s.addFunction f m.scope)
      (withStore fun s => s.addFunction f m.scope) fun g => (Value.function g).Within R :=
    settles_withStore fun s hs => hs.addFunction hf hm.scope
  exact (hfunction.bind fun g hg => settles_declareVariable _ hg) m hm hdepth

/-- Declaring a class with functions of the region settles. -/
theorem settles_declareClass {c : ClassDecl} (hc : ∀ method ∈ c.methods, R.functions method) :
    Settles R depth (declareClass c) (declareClass c) fun _ => True := by
  refine settles_bind_get fun m hm hdepth => ?_
  have hclass : Settles R depth (withStore fun s => s.addClass c m.scope)
      (withStore fun s => s.addClass c m.scope) fun d => (Value.classValue d).Within R :=
    settles_withStore fun s hs => hs.addClass hc hm.scope
  exact (hclass.bind fun d hd => settles_declareVariable _ hd) m hm hdepth

mutual

/-- Without loops the fuel for loops makes no difference. -/
theorem Stmt.settles {call call' : Caller} (hR : R.LoopFree)
    (hcalls : CallsSettle R depth call call') (fuel fuel' : Nat) :
    (s : Stmt) → s.loopFree = true →
      Settles R depth (s.execute call fuel) (s.execute call' fuel') (Flow.Within R)
  | .expression value, _ => by
    rw [Stmt.execute, Stmt.execute]
    exact (Expr.settles hcalls value).bind fun v _ => settles_pure trivial
  | .print value, _ => by
    rw [Stmt.execute, Stmt.execute]
    refine (Expr.settles hcalls value).bind fun v _ => ?_
    exact (settles_printLine v).bind fun _ _ => settles_pure trivial
  | .declare name initial, _ => by
    rw [Stmt.execute, Stmt.execute]
    refine (Expr.optionSettles hcalls initial).bind fun v hv => ?_
    exact (settles_declareVariable _ hv).bind fun _ _ => settles_pure trivial
  | .block body, hbody => by
    rw [Stmt.execute, Stmt.execute]
    refine settles_bind_get fun m hm hdepth => ?_
    have hnew : Settles R depth (newScope m.scope) (newScope m.scope)
        fun scope => R.scopes ≤ scope.index :=
      settles_withStore fun s hs => ⟨hs.addChild hm.scope, hs.scopes_le⟩
    refine (hnew.bind fun scope hscope => ?_) m hm hdepth
    exact settles_inScope hscope (Stmt.listSettles hR hcalls fuel fuel' body hbody)
  | .branch condition thenBranch none, hthen => by
    rw [Stmt.execute, Stmt.execute]
    refine (Expr.settles hcalls condition).bind fun v _ => ?_
    cases v.isTruthy with
    | false => exact settles_pure trivial
    | true => exact Stmt.settles hR hcalls fuel fuel' thenBranch hthen
  | .branch condition thenBranch (some elseBranch), hbranches => by
    obtain ⟨hthen, helse⟩ := Bool.and_eq_true_iff.1 hbranches
    rw [Stmt.execute, Stmt.execute]
    refine (Expr.settles hcalls condition).bind fun v _ => ?_
    cases v.isTruthy with
    | false => exact Stmt.settles hR hcalls fuel fuel' elseBranch helse
    | true => exact Stmt.settles hR hcalls fuel fuel' thenBranch hthen
  | .loop condition body, hloop => by
    rw [Stmt.loopFree] at hloop
    cases hloop
  | .leave line value, _ => by
    rw [Stmt.execute, Stmt.execute]
    exact (Expr.optionSettles hcalls value).bind fun v hv => settles_pure hv
  | .function f, hf => by
    rw [Stmt.execute, Stmt.execute]
    exact (settles_declareFunction ((hR f).2 hf)).bind fun _ _ => settles_pure trivial
  | .classOf ⟨name, methods⟩, hc => by
    rw [Stmt.loopFree, FunctionDecl.listLoopFree_iff] at hc
    have hmethods : ∀ method ∈ methods, R.functions method := fun f hmem => (hR f).2 (hc f hmem)
    rw [Stmt.execute, Stmt.execute]
    refine Settles.bind (settles_declareClass ?_) fun _ _ => settles_pure trivial
    exact hmethods

/-- Statements without loops settle if calls do, whatever fuel there is for loops. -/
theorem Stmt.listSettles {call call' : Caller} (hR : R.LoopFree)
    (hcalls : CallsSettle R depth call call') (fuel fuel' : Nat) :
    (body : List Stmt) → Stmt.listLoopFree body = true →
      Settles R depth (Stmt.executeAll call fuel body) (Stmt.executeAll call' fuel' body)
        (Flow.Within R)
  | [], _ => by
    rw [Stmt.executeAll, Stmt.executeAll]
    exact settles_pure trivial
  | s :: rest, hbody => by
    obtain ⟨hs, hrest⟩ := Bool.and_eq_true_iff.1 hbody
    rw [Stmt.executeAll, Stmt.executeAll]
    refine (Stmt.settles hR hcalls fuel fuel' s hs).bind fun flow hflow => ?_
    cases flow with
    | normal => exact Stmt.listSettles hR hcalls fuel fuel' rest hrest
    | returned v => exact settles_pure hflow

end

/-! ## Calls -/

/-- Bodies agree and settle where one more call may be opened. -/
def BodiesSettle (R : Region) (depth : Nat) (run run' : List Stmt → Eval Flow) : Prop :=
  depth < maxCallDepth → ∀ body, Stmt.listLoopFree body = true →
    Settles R (depth + 1) (run body) (run' body) (Flow.Within R)

/-- Calling a function of the region settles if running bodies one call deeper does. -/
theorem settles_callFunction (hR : R.LoopFree) {run run' : List Stmt → Eval Flow}
    (hrun : BodiesSettle R depth run run') {f : FunctionValue} (hf : (Value.function f).Within R)
    {arguments : List Value} (harguments : ∀ v ∈ arguments, v.Within R) (line : Nat) :
    Settles R depth (callFunction run f arguments line) (callFunction run' f arguments line)
      (Value.Within R) := by
  intro m hm hdepth
  rw [callFunction_eq, callFunction_eq]
  split
  · exact ⟨rfl, nofun⟩
  split
  · exact ⟨rfl, nofun⟩
  · next hfull =>
    rw [hdepth] at hfull
    have hbody := (hR f.declaration).1 hf.1
    rw [FunctionDecl.loopFree_eq] at hbody
    obtain ⟨heq, hsettled⟩ := hrun (Nat.lt_of_not_le hfull) f.declaration.body hbody
      (m.entering f arguments) (hm.entering hf harguments) (congrArg (· + 1) hdepth)
    rw [heq]
    refine ⟨rfl, ?_⟩
    cases hresult : run' f.declaration.body (m.entering f arguments) with
    | error stop m' =>
      rw [hresult] at hsettled
      exact hsettled
    | ok flow m' =>
      rw [hresult] at hsettled
      obtain ⟨hm', hdepth', hflow⟩ := hsettled
      have hclosed := Nat.sub_eq_of_eq_add hdepth'
      cases flow with
      | normal => exact ⟨⟨hm'.store, hm.scope⟩, hclosed, trivial⟩
      | returned v => exact ⟨⟨hm'.store, hm.scope⟩, hclosed, hflow⟩

/-- Calling a class of the region settles if running bodies one call deeper does. -/
theorem settles_construct (hR : R.LoopFree) {run run' : List Stmt → Eval Flow}
    (hrun : BodiesSettle R depth run run') {c : ClassValue} (hc : (Value.classValue c).Within R)
    {arguments : List Value} (harguments : ∀ v ∈ arguments, v.Within R) (line : Nat) :
    Settles R depth (construct run c arguments line) (construct run' c arguments line)
      (Value.Within R) := by
  unfold construct
  split
  · exact settles_fail _ _ _
  have hobject : Settles R depth (withStore fun s => s.addObject c)
      (withStore fun s => s.addObject c) fun id => R.objects ≤ id.index :=
    settles_withStore fun s hs => ⟨hs.addObject hc, hs.objects_le⟩
  refine hobject.bind fun id hid => ?_
  cases hinitializer : c.initializer? with
  | none => exact settles_pure hid
  | some method =>
    have hmethod := ClassValue.functions_of_method? hinitializer hc
    refine (settles_bindMethod hc hmethod hid).bind fun f hf => ?_
    exact (settles_callFunction hR hrun hf harguments line).bind fun _ _ => settles_pure hid

/-- With more fuel than calls may still be opened, calls do what they do without fuel. -/
theorem callsSettle (hR : R.LoopFree) {fuel : Nat} (hfuel : maxCallDepth - depth < fuel) :
    CallsSettle R depth (callAtFuel fuel) (callAtDepth depth) := by
  induction fuel generalizing depth with
  | zero => exact absurd hfuel (Nat.not_lt_zero _)
  | succ fuel ih =>
    intro f arguments line hf harguments
    rw [callAtFuel, callAtDepth]
    have hrun : BodiesSettle R depth
        (fun body => Stmt.executeAll (callAtFuel fuel) fuel body)
        (fun body => if depth < maxCallDepth then Stmt.executeAll (callAtDepth (depth + 1)) 0 body
          else throw .unfinished) := by
      intro hopen body hbody
      dsimp only
      rw [if_pos hopen]
      exact Stmt.listSettles hR (ih (by omega)) fuel 0 body hbody
    cases f with
    | function f => exact settles_callFunction hR hrun hf harguments line
    | classValue c => exact settles_construct hR hrun hf harguments line
    | _ => exact settles_fail _ _ _

end

/-! ## Programs -/

/-- Passing on what was printed does not use up fuel. -/
theorem Eval.fails_unfinished_of_flushing {α : Type} {action : Eval α} {m m' : Machine}
    (h : Eval.flushing action m = .error .unfinished m') :
    ∃ m'', action m = .error .unfinished m'' := by
  unfold Eval.flushing at h
  split at h
  · next m'' herror => exact ⟨m'', herror⟩
  · split at h
    · cases h
    · cases h
  · next hfinished herror =>
    split at h
    · cases h
    · cases h
      exact ⟨_, herror⟩

/-- Actions that do the same do the same with what was printed passed on. -/
theorem Eval.flushing_congr {α : Type} {action action' : Eval α} {m : Machine}
    (h : action m = action' m) : Eval.flushing action m = Eval.flushing action' m := by
  unfold Eval.flushing
  rw [h]

/-- From the fresh global scope, the top level without loops agrees and settles. -/
theorem Program.settled_topLevel {program : Program} (h : program.loopFree = true) (m : Machine)
    {fuel : Nat} (hfuel : maxCallDepth < fuel) :
    Stmt.executeAll (callAtFuel fuel) fuel program.declarations m.restart =
        Stmt.executeAll (callAtDepth 0) 0 program.declarations m.restart
      ∧ ∀ m', Stmt.executeAll (callAtDepth 0) 0 program.declarations m.restart ≠
        .error .unfinished m' := by
  have hR : (Region.after (fun f => f.loopFree = true) m).LoopFree := fun _ => Iff.rfl
  have hcalls : CallsSettle (.after (fun f => f.loopFree = true) m) 0 (callAtFuel fuel)
      (callAtDepth 0) := callsSettle hR hfuel
  obtain ⟨heq, hsettled⟩ := Stmt.listSettles hR hcalls fuel 0 program.declarations h m.restart
    (m.within_restart _) rfl
  refine ⟨heq, fun m' herror => ?_⟩
  rw [herror] at hsettled
  exact hsettled rfl

/-- **Programs without loops finish.** From any state, a program without loops does with any fuel
beyond `maxCallDepth` what it does without fuel, and it comes to an end: it is not for want of fuel
that it stops. -/
theorem loop_free_finishes {program : Program} (h : program.loopFree = true) (m : Machine) :
    (∀ fuel, maxCallDepth < fuel → runAtFuel fuel program m = runLoopFree program m)
      ∧ ∀ m', runLoopFree program m ≠ .error .unfinished m' := by
  constructor
  · intro fuel hfuel
    refine Eval.flushing_congr ?_
    rw [runTopLevel_eq, (program.settled_topLevel h m hfuel).1]
    cases hbody : Stmt.executeAll (callAtDepth 0) 0 program.declarations m.restart with
    | ok flow m' => rw [Eval.bind_eq_of_ok hbody]; rfl
    | error stop m' => rw [Eval.bind_eq_of_error hbody]
  · intro m' herror
    obtain ⟨m'', hbody⟩ := Eval.fails_unfinished_of_flushing herror
    obtain ⟨-, hfinishes⟩ := program.settled_topLevel h m (Nat.lt_succ_self maxCallDepth)
    cases hrun : Stmt.executeAll (callAtDepth 0) 0 program.declarations m.restart with
    | ok flow m₁ =>
      rw [Eval.bind_eq_of_ok hrun] at hbody
      cases hbody
    | error stop m₁ =>
      rw [Eval.bind_eq_of_error hrun] at hbody
      cases hbody
      exact hfinishes _ hrun

/-- A function that calls itself without end, and a call of it. -/
def endlessRecursion : Program :=
  ⟨[.function ⟨⟨"f", 1⟩, [], [.expression (.call (.reference ⟨"f", 1⟩) [] 1)]⟩,
    .expression (.call (.reference ⟨"f", 1⟩) [] 2)]⟩

/-- Even endless recursion finishes, with just the fuel for one call more than may be open. -/
theorem loop_free_finishes_endless :
    endlessRecursion.loopFree = true
      ∧ runAtFuel 201 endlessRecursion (Machine.ofSink .unlimited) =
        runLoopFree endlessRecursion (Machine.ofSink .unlimited)
      ∧ ∀ m', runAtFuel 201 endlessRecursion (Machine.ofSink .unlimited) ≠
        .error .unfinished m' := by
  have hfree : endlessRecursion.loopFree = true := rfl
  obtain ⟨hfuel, hfinishes⟩ := loop_free_finishes hfree (Machine.ofSink .unlimited)
  refine ⟨hfree, hfuel 201 (by decide), ?_⟩
  rw [hfuel 201 (by decide)]
  exact hfinishes

end Quill
