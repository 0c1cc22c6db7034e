import Quill.Proofs.Evaluation.Points
import Quill.Proofs.Tree.Occurrences

/-!
# Invariants of evaluation

An `Invariant` is a property of stores, together with what it takes for granted of the values at hand
and of the scopes in which code runs, and a relation between the store before and the store after.
`Invariant.Kept` asks of each of the few things that can be done to a store that it keeps the
invariant, and of each of the few ways to get hold of a value that the value is as it should be.

From this follows, by one recursion for all invariants, that everything keeps it that a program can
do: evaluating an expression, executing a statement, calling a value, with any fuel and to any end
(`Expr.keeps`, `Stmt.keeps`, `Invariant.callsKeep`).

Only what is declared where is left to the statement: a declaration changes the scope that it stands
in, and a branch or the body of a loop may be one. Blocks and calls have a new scope to themselves.
-/

namespace Quill

open Eval

/-- A property of stores that evaluation may keep. -/
structure Invariant where
  /-- What holds of the store. -/
  holds : Store → Prop
  /-- How the store is related to one that it becomes. -/
  later : Store → Store → Prop
  /-- What holds of the values at hand. -/
  value : Store → Value → Prop
  /-- The scopes in which code runs, or which it closes over. -/
  place : Store → ScopeId → Prop
  /-- What may be declared where. -/
  declarable : Store → ScopeId → String → Prop

namespace Invariant

variable (I : Invariant)

/-- The store becomes one for which the invariant holds. -/
structure Step (s s' : Store) : Prop where
  holds : I.holds s'
  later : I.later s s'

/-- The store becomes one with a new scope, in which code runs and may declare any name. -/
structure Opens (s : Store) (scope : ScopeId) (s' : Store) : Prop where
  step : I.Step s s'
  place : I.place s' scope
  declarable : ∀ name, I.declarable s' scope name

/-- The store becomes one in which a value comes to hand. -/
structure Gives (s : Store) (v : Value) (s' : Store) : Prop where
  step : I.Step s s'
  value : I.value s' v

/-- Everything that the code may do to a store keeps the invariant. -/
structure Kept (code : Stmt → Prop) : Prop where
  refl : ∀ s, I.later s s
  trans : ∀ {s s' s''}, I.later s s' → I.later s' s'' → I.later s s''
  value_later : ∀ {s s' v}, I.later s s' → I.value s v → I.value s' v
  place_later : ∀ {s s' id}, I.later s s' → I.place s id → I.place s' id
  declarable_later : ∀ {s s' id name}, I.later s s' → I.declarable s id name →
    I.declarable s' id name
  plain : ∀ {s v}, IsPlain (.ok v) → I.value s v
  read : ∀ {s id name v}, I.holds s → I.place s id → s.get? id name = some v → I.value s v
  field : ∀ {s id object name v}, I.holds s → I.value s (.object id) → s.object? id = some object →
    object.fields.get? name = some v → I.value s v
  classOf : ∀ {s id object}, I.holds s → I.value s (.object id) → s.object? id = some object →
    I.value s (.classValue object.classOf)
  occurs : ∀ {s f}, I.value s (.function f) → f.declaration.Occurs code
  closure : ∀ {s f}, I.value s (.function f) → I.place s f.closure
  assign : ∀ {s id owner name v}, I.holds s → I.place s id → Targets code name → I.value s v →
    s.owner? id name = some owner → I.Step s (s.define owner name v)
  declare : ∀ {s id name v}, I.holds s → I.place s id → Targets code name → I.value s v →
    I.declarable s id name → I.Step s (s.define id name v)
  addGlobal : ∀ {s}, I.holds s → I.Opens s s.addGlobal.1 s.addGlobal.2
  addChild : ∀ {s id}, I.holds s → I.place s id → I.Opens s (s.addChild id).1 (s.addChild id).2
  addFunction : ∀ {s id f}, I.holds s → I.place s id → f.Occurs code →
    I.Gives s (.function (s.addFunction f id).1) (s.addFunction f id).2
  addClass : ∀ {s id c}, I.holds s → I.place s id → (Stmt.classOf c).Occurs code →
    I.Gives s (.classValue (s.addClass c id).1) (s.addClass c id).2
  addObject : ∀ {s c}, I.holds s → I.value s (.classValue c) →
    I.Gives s (.object (s.addObject c).1) (s.addObject c).2
  bindMethod : ∀ {s c name method id}, I.holds s → I.value s (.classValue c) →
    c.method? name = some method → I.value s (.object id) →
    I.Gives s (.function (s.bindMethod c method id).1) (s.bindMethod c method id).2
  setField : ∀ {s id v}, I.holds s → I.value s (.object id) → I.value s v → ∀ name,
    I.Step s (s.setField id name v)

/-- The invariant holds where code runs. -/
structure At (m : Machine) : Prop where
  holds : I.holds m.store
  place : I.place m.store m.scope

/-- What has been done keeps the invariant, comes back to where it started, and has yielded what it
should, if it has yielded anything. -/
structure Keeps {α : Type} (m : Machine) (result : EStateM.Result Stop Machine α)
    (yields : Store → α → Prop) : Prop where
  step : I.Step m.store (ending result).store
  place : m.SamePlace (ending result)
  yields : ∀ {a m'}, result = .ok a m' → yields m'.store a

/-- What a statement may leave a function with. -/
def leaves (s : Store) : Flow → Prop
  | .normal => True
  | .returned v => I.value s v

variable {I} {code : Stmt → Prop} (hI : I.Kept code)

/-! ## Actions -/

section

variable {α β : Type} {m m' : Machine}

/-- Where the place is the same, a step keeps what must hold there. -/
theorem At.after (h : I.At m) (hI : I.Kept code) (hstep : I.Step m.store m'.store)
    (hplace : m.SamePlace m') : I.At m' where
  holds := hstep.holds
  place := by
    rw [hplace.scope]
    exact hI.place_later hstep.later h.place

/-- What may be declared where code runs may be declared there later. -/
theorem declarable_after (hI : I.Kept code) (hstep : I.Step m.store m'.store)
    (hplace : m.SamePlace m') {name : String} (h : I.declarable m.store m.scope name) :
    I.declarable m'.store m'.scope name := by
  rw [hplace.scope]
  exact hI.declarable_later hstep.later h

include hI

/-- Doing nothing is a step. -/
theorem Step.refl {s : Store} (h : I.holds s) : I.Step s s := ⟨h, hI.refl s⟩

/-- Two steps are a step. -/
theorem Step.trans {s s' s'' : Store} (h : I.Step s s') (h' : I.Step s' s'') : I.Step s s'' :=
  ⟨h'.holds, hI.trans h.later h'.later⟩

/-- An action that only has a value keeps what holds. -/
theorem keeps_pure (h : I.At m) {Q : Store → α → Prop} {a : α} (ha : Q m.store a) :
    I.Keeps m ((pure a : Eval α) m) Q where
  step := .refl hI h.holds
  place := .refl m
  yields := by
    rintro _ _ ⟨⟩
    exact ha

/-- An action that only stops keeps what holds. -/
theorem keeps_throw (h : I.At m) (stop : Stop) {Q : Store → α → Prop} :
    I.Keeps m ((throw stop : Eval α) m) Q where
  step := .refl hI h.holds
  place := .refl m
  yields := nofun

/-- What follows starts from a state that is as good as the first one. -/
theorem Keeps.bind {x : Eval α} {f : α → Eval β} {Q : Store → α → Prop} {R : Store → β → Prop}
    (hx : I.Keeps m (x m) Q)
    (hf : ∀ a m', I.Step m.store m'.store → m.SamePlace m' → Q m'.store a →
      I.Keeps m' (f a m') R) : I.Keeps m ((x >>= f) m) R := by
  obtain ⟨hstep, hplace, hyields⟩ := hx
  cases haction : x m with
  | error stop m' =>
    rw [haction] at hstep hplace
    rw [bind_eq_of_error haction]
    exact ⟨hstep, hplace, nofun⟩
  | ok a m' =>
    rw [haction] at hstep hplace
    rw [bind_eq_of_ok haction]
    obtain ⟨hstep', hplace', hyields'⟩ := hf a m' hstep hplace (hyields haction)
    exact ⟨.trans hI hstep hstep', hplace.trans hplace', hyields'⟩

omit hI in
/-- A change of the store keeps what holds if it is a step. -/
theorem keeps_withStore {f : Store → α × Store} {Q : Store → α → Prop}
    (hstep : I.Step m.store (f m.store).2) (hyields : Q (f m.store).2 (f m.store).1) :
    I.Keeps m (withStore f m) Q where
  step := hstep
  place := restores_withStore f m
  yields := by
    rintro _ _ ⟨⟩
    exact hyields

/-- An operator has a plain value, and changes nothing. -/
theorem keeps_ofExcept (h : I.At m) {result : Except Fault Value} (hplain : IsPlain result) :
    I.Keeps m (ofExcept result m) I.value := by
  cases result with
  | ok v => exact keeps_pure hI h (hI.plain hplain)
  | error fault => exact keeps_throw hI h _

/-- What a variable holds is a value that the invariant allows. -/
theorem keeps_readVariable (h : I.At m) (name : String) (line : Nat) :
    I.Keeps m (readVariable name line m) I.value := by
  unfold readVariable
  cases hget : m.store.get? m.scope name with
  | some v => exact keeps_pure hI h (hI.read h.holds h.place hget)
  | none => exact keeps_throw hI h _

/-- An assignment that the code makes is a step. -/
theorem keeps_writeVariable (h : I.At m) {name : String} (hname : Targets code name) {v : Value}
    (hv : I.value m.store v) (line : Nat) :
    I.Keeps m (writeVariable name v line m) fun _ _ => True := by
  rw [writeVariable_eq]
  cases howner : m.store.owner? m.scope name with
  | none => exact keeps_throw hI h _
  | some owner => exact ⟨hI.assign h.holds h.place hname hv howner, ⟨rfl, rfl⟩, fun _ => trivial⟩

/-- A declaration where the name may be declared is a step. -/
theorem keeps_declareVariable (h : I.At m) {name : String} (hname : Targets code name) {v : Value}
    (hv : I.value m.store v) (hdeclarable : I.declarable m.store m.scope name) :
    I.Keeps m (declareVariable name v m) fun _ _ => True :=
  ⟨hI.declare h.holds h.place hname hv hdeclarable, ⟨rfl, rfl⟩, fun _ => trivial⟩

/-- Printing is a step. -/
theorem keeps_printLine (h : I.At m) (v : Value) :
    I.Keeps m (printLine v m) fun _ _ => True := by
  obtain ⟨sink, hok | ⟨fault, herror⟩⟩ := printLine_eq v m
  · rw [hok]
    exact ⟨.refl hI h.holds, ⟨rfl, rfl⟩, fun _ => trivial⟩
  · rw [herror]
    exact ⟨.refl hI h.holds, ⟨rfl, rfl⟩, nofun⟩

omit hI in
/-- What runs in another scope keeps the invariant there, and then the first scope is back. -/
theorem keeps_inScope {scope : ScopeId} {action : Eval α} {Q : Store → α → Prop}
    (haction : I.Keeps { m with scope := scope } (action { m with scope := scope }) Q) :
    I.Keeps m (inScope scope action m) Q := by
  obtain ⟨hstep, hplace, hyields⟩ := haction
  unfold inScope
  dsimp only
  cases hrun : action { m with scope := scope } with
  | ok a m' =>
    rw [hrun] at hstep hplace
    have hyield := hyields hrun
    refine ⟨hstep, ⟨rfl, hplace.depth⟩, ?_⟩
    rintro _ _ ⟨⟩
    exact hyield
  | error stop m' =>
    rw [hrun] at hstep hplace
    exact ⟨hstep, ⟨rfl, hplace.depth⟩, nofun⟩

end

/-! ## Expressions -/

/-- Calls of values at hand keep the invariant. -/
def CallsKeep (I : Invariant) (call : Caller) : Prop :=
  ∀ {m : Machine} {callee : Value} {arguments : List Value} (line : Nat), I.At m →
    I.value m.store callee → (∀ v ∈ arguments, I.value m.store v) →
    I.Keeps m (call callee arguments line m) I.value

include hI

/-- An object that a value is, is one that the invariant allows. -/
theorem keeps_objectOf {m : Machine} (h : I.At m) {v : Value} (hv : I.value m.store v)
    (line : Nat) : I.Keeps m (objectOf v line m) fun s id => I.value s (.object id) := by
  cases v with
  | object id => exact keeps_pure hI h hv
  | _ => exact keeps_throw hI h _

/-- A field is read as it is; a method is made into a function. -/
theorem keeps_readProperty {m : Machine} (h : I.At m) {id : ObjectId}
    (hid : I.value m.store (.object id)) (property : Name) :
    I.Keeps m (readProperty id property m) I.value := by
  have hget : (get : Eval Machine) m = .ok m m := rfl
  unfold readProperty
  rw [bind_eq_of_ok hget]
  cases hobject : m.store.object? id with
  | none => exact keeps_throw hI h _
  | some object =>
    dsimp only
    cases hfield : object.fields.get? property.text with
    | some v => exact keeps_pure hI h (hI.field h.holds hid hobject hfield)
    | none =>
      dsimp only
      cases hmethod : object.classOf.method? property.text with
      | none => exact keeps_throw hI h _
      | some method =>
        have hgives := hI.bindMethod h.holds (hI.classOf h.holds hid hobject) hmethod hid
        refine Keeps.bind hI (Q := fun s f => I.value s (.function f))
          (keeps_withStore hgives.step hgives.value) ?_
        intro f m' hstep hplace hf
        exact keeps_pure hI (h.after hI hstep hplace) hf

end Invariant

open Invariant

variable {I : Invariant} {code : Stmt → Prop} {call : Caller}

mutual

/-- An expression of the code keeps the invariant if calls do, and its value is one that it allows.
-/
theorem Expr.keeps (hI : I.Kept code) (hcalls : I.CallsKeep call) :
    (e : Expr) → e.Occurs code → ∀ {m : Machine}, I.At m → I.Keeps m (e.evaluate call m) I.value
  | .literal value _, _, m, h => by
    rw [Expr.evaluate]
    refine keeps_pure hI h (hI.plain ?_)
    cases value with
    | _ => trivial
  | .unary operator operand, hoccurs, m, h => by
    rw [Expr.evaluate]
    refine Keeps.bind hI (Expr.keeps hI hcalls operand hoccurs.operand h) ?_
    intro v m' hstep hplace _
    exact keeps_ofExcept hI (h.after hI hstep hplace) (isPlain_applyUnary _ _)
  | .binary left operator right, hoccurs, m, h => by
    rw [Expr.evaluate]
    refine Keeps.bind hI (Expr.keeps hI hcalls left hoccurs.left h) ?_
    intro a m₁ hstep hplace _
    have h₁ := h.after hI hstep hplace
    refine Keeps.bind hI (Expr.keeps hI hcalls right hoccurs.right h₁) ?_
    intro b m₂ hstep hplace _
    exact keeps_ofExcept hI (h₁.after hI hstep hplace) (isPlain_applyBinary _ _ _)
  | .group inner, hoccurs, m, h => by
    rw [Expr.evaluate]
    exact Expr.keeps hI hcalls inner hoccurs.inner h
  | .reference name, _, m, h => by
    rw [Expr.evaluate]
    exact keeps_readVariable hI h _ _
  | .assign name value, hoccurs, m, h => by
    rw [Expr.evaluate]
    refine Keeps.bind hI (Expr.keeps hI hcalls value hoccurs.assigned h) ?_
    intro v m₁ hstep hplace hv
    have h₁ := h.after hI hstep hplace
    refine Keeps.bind hI (keeps_writeVariable hI h₁ (.assigned hoccurs) hv _) ?_
    intro _ m₂ hstep hplace _
    exact keeps_pure hI (h₁.after hI hstep hplace) (hI.value_later hstep.later hv)
  | .call callee arguments line, hoccurs, m, h => by
    rw [Expr.evaluate]
    refine Keeps.bind hI (Expr.keeps hI hcalls callee hoccurs.callee h) ?_
    intro f m₁ hstep hplace hf
    have h₁ := h.after hI hstep hplace
    refine Keeps.bind hI
      (Expr.listKeeps hI hcalls arguments (fun e he => hoccurs.argument he) h₁) ?_
    intro values m₂ hstep hplace hvalues
    exact hcalls line (h₁.after hI hstep hplace) (hI.value_later hstep.later hf) hvalues
  | .get object property, hoccurs, m, h => by
    rw [Expr.evaluate]
    refine Keeps.bind hI (Expr.keeps hI hcalls object hoccurs.ofGet h) ?_
    intro target m₁ hstep hplace htarget
    have h₁ := h.after hI hstep hplace
    refine Keeps.bind hI (keeps_objectOf hI h₁ htarget _) ?_
    intro id m₂ hstep hplace hid
    exact keeps_readProperty hI (h₁.after hI hstep hplace) hid property
  | .set object property value, hoccurs, m, h => by
    rw [Expr.evaluate]
    refine Keeps.bind hI (Expr.keeps hI hcalls object hoccurs.ofSet h) ?_
    intro target m₁ hstep hplace htarget
    have h₁ := h.after hI hstep hplace
    refine Keeps.bind hI (keeps_objectOf hI h₁ htarget _) ?_
    intro id m₂ hstep hplace hid
    have h₂ := h₁.after hI hstep hplace
    refine Keeps.bind hI (Expr.keeps hI hcalls value hoccurs.set h₂) ?_
    intro v m₃ hstep hplace hv
    have h₃ := h₂.after hI hstep hplace
    have hset := hI.setField h₃.holds (hI.value_later hstep.later hid) hv property.text
    refine Keeps.bind hI (keeps_withStore (Q := fun _ _ => True) hset trivial) ?_
    intro _ m₄ hstep hplace _
    exact keeps_pure hI (h₃.after hI hstep hplace) (hI.value_later hstep.later hv)
  | .this line, _, m, h => by
    rw [Expr.evaluate]
    exact keeps_readVariable hI h _ _

/-- Expressions of the code keep the invariant if calls do, and so are their values. -/
theorem Expr.listKeeps (hI : I.Kept code) (hcalls : I.CallsKeep call) :
    (es : List Expr) → (∀ e ∈ es, e.Occurs code) → ∀ {m : Machine}, I.At m →
      I.Keeps m (Expr.evaluateAll call es m) fun s vs => ∀ v ∈ vs, I.value s v
  | [], _, m, h => by
    rw [Expr.evaluateAll]
    exact keeps_pure hI h nofun
  | e :: rest, hoccurs, m, h => by
    obtain ⟨he, hrest⟩ := List.forall_mem_cons.1 hoccurs
    rw [Expr.evaluateAll]
    refine Keeps.bind hI (Expr.keeps hI hcalls e he h) ?_
    intro v m₁ hstep hplace hv
    have h₁ := h.after hI hstep hplace
    refine Keeps.bind hI (Expr.listKeeps hI hcalls rest hrest h₁) ?_
    intro vs m₂ hstep hplace hvs
    refine keeps_pure hI (h₁.after hI hstep hplace) ?_
    exact List.forall_mem_cons.2 ⟨hI.value_later hstep.later hv, hvs⟩

end

/-- An expression that may be missing keeps the invariant if calls do. -/
theorem Expr.optionKeeps (hI : I.Kept code) (hcalls : I.CallsKeep call) {e : Option Expr}
    (hoccurs : ∀ e' ∈ e, e'.Occurs code) {m : Machine} (h : I.At m) :
    I.Keeps m (Expr.evaluateOption call e m) I.value := by
  cases e with
  | none => exact keeps_pure hI h (hI.plain trivial)
  | some e => exact Expr.keeps hI hcalls e (hoccurs e rfl) h

/-! ## Statements -/

namespace Invariant

variable (hI : I.Kept code)

include hI

/-- A function of the code is declared in keeping with the invariant. -/
theorem keeps_declareFunction {m : Machine} (h : I.At m) {f : FunctionDecl}
    (hoccurs : (Stmt.function f).Occurs code)
    (hdeclarable : I.declarable m.store m.scope f.name.text) :
    I.Keeps m (declareFunction f m) fun _ _ => True := by
  have hget : (get : Eval Machine) m = .ok m m := rfl
  have hgives := hI.addFunction h.holds h.place (.function hoccurs)
  unfold declareFunction
  rw [bind_eq_of_ok hget]
  refine Keeps.bind hI (Q := fun s g => I.value s (.function g))
    (keeps_withStore hgives.step hgives.value) ?_
  intro g m' hstep hplace hg
  refine keeps_declareVariable hI (h.after hI hstep hplace) (.function hoccurs) hg ?_
  exact declarable_after hI hstep hplace hdeclarable

/-- A class of the code is declared in keeping with the invariant. -/
theorem keeps_declareClass {m : Machine} (h : I.At m) {c : ClassDecl}
    (hoccurs : (Stmt.classOf c).Occurs code)
    (hdeclarable : I.declarable m.store m.scope c.name.text) :
    I.Keeps m (declareClass c m) fun _ _ => True := by
  have hget : (get : Eval Machine) m = .ok m m := rfl
  have hgives := hI.addClass h.holds h.place hoccurs
  unfold declareClass
  rw [bind_eq_of_ok hget]
  refine Keeps.bind hI (Q := fun s d => I.value s (.classValue d))
    (keeps_withStore hgives.step hgives.value) ?_
  intro d m' hstep hplace hd
  refine keeps_declareVariable hI (h.after hI hstep hplace) (.classOf hoccurs) hd ?_
  exact declarable_after hI hstep hplace hdeclarable

/-- The induction is on the rounds; the condition and the body run in the same scope in each. -/
theorem keeps_loopAtFuel {condition : Eval Value} {body : Eval Flow} {names : List String}
    (hcondition : ∀ {m : Machine}, I.At m → I.Keeps m (condition m) I.value)
    (hbody : ∀ {m : Machine}, I.At m → (∀ name ∈ names, I.declarable m.store m.scope name) →
      I.Keeps m (body m) I.leaves) (fuel : Nat) {m : Machine} (h : I.At m)
    (hnames : ∀ name ∈ names, I.declarable m.store m.scope name) :
    I.Keeps m (loopAtFuel condition body fuel m) I.leaves := by
  induction fuel generalizing m with
  | zero => exact keeps_throw hI h _
  | succ fuel ih =>
    refine Keeps.bind hI (hcondition h) ?_
    intro v m₁ hstep hplace _
    have h₁ := h.after hI hstep hplace
    have hnames₁ : ∀ name ∈ names, I.declarable m₁.store m₁.scope name :=
      fun name hname => declarable_after hI hstep hplace (hnames name hname)
    by_cases htruthy : v.isTruthy
    · rw [if_pos htruthy]
      refine Keeps.bind hI (hbody h₁ hnames₁) ?_
      intro flow m₂ hstep hplace hflow
      have h₂ := h₁.after hI hstep hplace
      cases flow with
      | returned w => exact keeps_pure hI h₂ hflow
      | normal =>
        exact ih h₂ fun name hname => declarable_after hI hstep hplace (hnames₁ name hname)
    · rw [if_neg htruthy]
      exact keeps_pure hI h₁ trivial

end Invariant

mutual

/-- A statement of the code keeps the invariant if calls do and its names may be declared there. -/
theorem Stmt.keeps (hI : I.Kept code) (hcalls : I.CallsKeep call) (fuel : Nat) :
    (s : Stmt) → s.Occurs code → ∀ {m : Machine}, I.At m →
      (∀ name ∈ s.declares, I.declarable m.store m.scope name) →
      I.Keeps m (s.execute call fuel m) I.leaves
  | .expression value, hoccurs, m, h, _ => by
    rw [Stmt.execute]
    refine Keeps.bind hI (Expr.keeps hI hcalls value (.effect hoccurs) h) ?_
    intro v m₁ hstep hplace _
    exact keeps_pure hI (h.after hI hstep hplace) trivial
  | .print value, hoccurs, m, h, _ => by
    rw [Stmt.execute]
    refine Keeps.bind hI (Expr.keeps hI hcalls value (.printed hoccurs) h) ?_
    intro v m₁ hstep hplace _
    have h₁ := h.after hI hstep hplace
    refine Keeps.bind hI (keeps_printLine hI h₁ v) ?_
    intro _ m₂ hstep hplace _
    exact keeps_pure hI (h₁.after hI hstep hplace) trivial
  | .declare name initial, hoccurs, m, h, hnames => by
    rw [Stmt.execute]
    have hinitial : ∀ e ∈ initial, e.Occurs code := by
      rintro e rfl
      exact .initial hoccurs
    refine Keeps.bind hI (Expr.optionKeeps hI hcalls hinitial h) ?_
    intro v m₁ hstep hplace hv
    have h₁ := h.after hI hstep hplace
    have hname := declarable_after hI hstep hplace (hnames name.text List.mem_cons_self)
    refine Keeps.bind hI (keeps_declareVariable hI h₁ (.variable hoccurs) hv hname) ?_
    intro _ m₂ hstep hplace _
    exact keeps_pure hI (h₁.after hI hstep hplace) trivial
  | .block body, hoccurs, m, h, _ => by
    have hget : (get : Eval Machine) m = .ok m m := rfl
    have hopens := hI.addChild h.holds h.place
    rw [Stmt.execute, bind_eq_of_ok hget]
    refine Keeps.bind hI
      (Q := fun s scope => I.place s scope ∧ ∀ name, I.declarable s scope name)
      (keeps_withStore hopens.step ⟨hopens.place, hopens.declarable⟩) ?_
    rintro scope m₁ hstep - ⟨hplace, hdeclarable⟩
    refine keeps_inScope (Stmt.listKeeps hI hcalls fuel body (fun s hs => hoccurs.block hs) ?_ ?_)
    · exact ⟨hstep.holds, hplace⟩
    · exact fun _ _ name _ => hdeclarable name
  | .branch condition thenBranch none, hoccurs, m, h, hnames => by
    rw [Stmt.execute]
    refine Keeps.bind hI (Expr.keeps hI hcalls condition (.condition hoccurs) h) ?_
    intro v m₁ hstep hplace _
    have h₁ := h.after hI hstep hplace
    by_cases htruthy : v.isTruthy
    · rw [if_pos htruthy]
      refine Stmt.keeps hI hcalls fuel thenBranch hoccurs.thenBranch h₁ fun name hname => ?_
      exact declarable_after hI hstep hplace (hnames name hname)
    · rw [if_neg htruthy]
      exact keeps_pure hI h₁ trivial
  | .branch condition thenBranch (some elseBranch), hoccurs, m, h, hnames => by
    rw [Stmt.execute]
    refine Keeps.bind hI (Expr.keeps hI hcalls condition (.condition hoccurs) h) ?_
    intro v m₁ hstep hplace _
    have h₁ := h.after hI hstep hplace
    obtain ⟨hthen, helse⟩ := List.forall_mem_append.1 hnames
    by_cases htruthy : v.isTruthy
    · rw [if_pos htruthy]
      refine Stmt.keeps hI hcalls fuel thenBranch hoccurs.thenBranch h₁ fun name hname => ?_
      exact declarable_after hI hstep hplace (hthen name hname)
    · rw [if_neg htruthy]
      refine Stmt.keeps hI hcalls fuel elseBranch hoccurs.elseBranch h₁ fun name hname => ?_
      exact declarable_after hI hstep hplace (helse name hname)
  | .loop condition body, hoccurs, m, h, hnames => by
    rw [Stmt.execute]
    exact keeps_loopAtFuel hI (Expr.keeps hI hcalls condition (.loopCondition hoccurs))
      (Stmt.keeps hI hcalls fuel body hoccurs.loop) fuel h hnames
  | .leave line value, hoccurs, m, h, _ => by
    rw [Stmt.execute]
    have hvalue : ∀ e ∈ value, e.Occurs code := by
      rintro e rfl
      exact .result hoccurs
    refine Keeps.bind hI (Expr.optionKeeps hI hcalls hvalue h) ?_
    intro v m₁ hstep hplace hv
    exact keeps_pure hI (h.after hI hstep hplace) hv
  | .function f, hoccurs, m, h, hnames => by
    rw [Stmt.execute]
    have hname := hnames f.name.text List.mem_cons_self
    refine Keeps.bind hI (keeps_declareFunction hI h hoccurs hname) ?_
    intro _ m₁ hstep hplace _
    exact keeps_pure hI (h.after hI hstep hplace) trivial
  | .classOf c, hoccurs, m, h, hnames => by
    rw [Stmt.execute]
    have hname := hnames c.name.text List.mem_cons_self
    refine Keeps.bind hI (keeps_declareClass hI h hoccurs hname) ?_
    intro _ m₁ hstep hplace _
    exact keeps_pure hI (h.after hI hstep hplace) trivial

/-- Statements of the code keep the invariant if calls do and their names may be declared there. -/
theorem Stmt.listKeeps (hI : I.Kept code) (hcalls : I.CallsKeep call) (fuel : Nat) :
    (body : List Stmt) → (∀ s ∈ body, s.Occurs code) → ∀ {m : Machine}, I.At m →
      (∀ s ∈ body, ∀ name ∈ s.declares, I.declarable m.store m.scope name) →
      I.Keeps m (Stmt.executeAll call fuel body m) I.leaves
  | [], _, m, h, _ => by
    rw [Stmt.executeAll]
    exact keeps_pure hI h trivial
  | s :: rest, hoccurs, m, h, hnames => by
    obtain ⟨hs, hrest⟩ := List.forall_mem_cons.1 hoccurs
    obtain ⟨hfirst, hothers⟩ := List.forall_mem_cons.1 hnames
    rw [Stmt.executeAll]
    refine Keeps.bind hI (Stmt.keeps hI hcalls fuel s hs h hfirst) ?_
    intro flow m₁ hstep hplace hflow
    have h₁ := h.after hI hstep hplace
    cases flow with
    | returned v => exact keeps_pure hI h₁ hflow
    | normal =>
      refine Stmt.listKeeps hI hcalls fuel rest hrest h₁ fun s' hs' name hname => ?_
      exact declarable_after hI hstep hplace (hothers s' hs' name hname)

end

/-! ## Calls -/

namespace Invariant

variable (hI : I.Kept code)

include hI

/-- The parameters are bound in a scope in which any name may be. -/
theorem step_defineAll {scope : ScopeId} {bindings : List (String × Value)}
    (htargets : ∀ binding ∈ bindings, Targets code binding.1) {s : Store} (hs : I.holds s)
    (hplace : I.place s scope) (hvalues : ∀ binding ∈ bindings, I.value s binding.2)
    (hdeclarable : ∀ name, I.declarable s scope name) :
    I.Step s (s.defineAll scope bindings) := by
  induction bindings generalizing s with
  | nil => exact .refl hI hs
  | cons binding rest ih =>
    obtain ⟨htarget, htargets⟩ := List.forall_mem_cons.1 htargets
    obtain ⟨hvalue, hvalues⟩ := List.forall_mem_cons.1 hvalues
    have hfirst := hI.declare hs hplace htarget hvalue (hdeclarable binding.1)
    refine .trans hI hfirst (ih htargets hfirst.holds ?_ ?_ ?_)
    · exact hI.place_later hfirst.later hplace
    · exact fun b hb => hI.value_later hfirst.later (hvalues b hb)
    · exact fun name => hI.declarable_later hfirst.later (hdeclarable name)

/-- The body of a function at hand starts in a scope of its own. -/
theorem opens_entering {m : Machine} (hm : I.holds m.store) {f : FunctionValue}
    (hf : I.value m.store (.function f)) {arguments : List Value}
    (harguments : ∀ v ∈ arguments, I.value m.store v) :
    I.Opens m.store (m.entering f arguments).scope (m.entering f arguments).store := by
  obtain ⟨hstep, hplace, hdeclarable⟩ := hI.addChild hm (hI.closure hf)
  have hbound : I.Step (m.store.addChild f.closure).2 (m.entering f arguments).store := by
    refine step_defineAll hI ?_ hstep.holds hplace ?_ hdeclarable
    · intro binding hbinding
      obtain ⟨name, hname, heq⟩ := List.mem_map.1 (List.of_mem_zip hbinding).1
      rw [← heq]
      exact .parameter (hI.occurs hf) hname
    · intro binding hbinding
      exact hI.value_later hstep.later (harguments _ (List.of_mem_zip hbinding).2)
  exact
    { step := .trans hI hstep hbound
      place := hI.place_later hbound.later hplace
      declarable := fun name => hI.declarable_later hbound.later (hdeclarable name) }

/-- Bodies of functions keep the invariant in a scope in which they may declare anything. -/
def BodiesKeep (I : Invariant) (code : Stmt → Prop) (run : List Stmt → Eval Flow) : Prop :=
  ∀ {body : List Stmt}, (∀ s ∈ body, s.Occurs code) → ∀ {m : Machine}, I.At m →
    (∀ name, I.declarable m.store m.scope name) → I.Keeps m (run body m) I.leaves

/-- Calling a function that the invariant allows keeps the invariant, if bodies do. -/
theorem keeps_callFunction {run : List Stmt → Eval Flow} (hrun : I.BodiesKeep code run)
    {m : Machine} (h : I.At m) {f : FunctionValue} (hf : I.value m.store (.function f))
    {arguments : List Value} (harguments : ∀ v ∈ arguments, I.value m.store v) (line : Nat) :
    I.Keeps m (callFunction run f arguments line m) I.value := by
  rw [callFunction_eq]
  split
  · exact keeps_throw hI h _
  split
  · exact keeps_throw hI h _
  have hopens := opens_entering hI h.holds hf harguments
  obtain ⟨hstep, hplace, hyields⟩ :=
    hrun (hI.occurs hf).body ⟨hopens.step.holds, hopens.place⟩ hopens.declarable
  have hall := hopens.step.trans hI hstep
  have hdepth := Nat.sub_eq_of_eq_add hplace.depth
  cases hbody : run f.declaration.body (m.entering f arguments) with
  | error stop m' =>
    rw [hbody] at hall hdepth
    exact ⟨hall, ⟨rfl, hdepth⟩, nofun⟩
  | ok flow m' =>
    rw [hbody] at hall hdepth
    have hflow := hyields hbody
    cases flow with
    | normal =>
      refine ⟨hall, ⟨rfl, hdepth⟩, ?_⟩
      rintro _ _ ⟨⟩
      exact hI.plain trivial
    | returned v =>
      refine ⟨hall, ⟨rfl, hdepth⟩, ?_⟩
      rintro _ _ ⟨⟩
      exact hflow

/-- Calling a class that the invariant allows keeps the invariant, if bodies do. -/
theorem keeps_construct {run : List Stmt → Eval Flow} (hrun : I.BodiesKeep code run)
    {m : Machine} (h : I.At m) {c : ClassValue} (hc : I.value m.store (.classValue c))
    {arguments : List Value} (harguments : ∀ v ∈ arguments, I.value m.store v) (line : Nat) :
    I.Keeps m (construct run c arguments line m) I.value := by
  unfold construct
  split
  · exact keeps_throw hI h _
  have hobject := hI.addObject h.holds hc
  refine Keeps.bind hI (Q := fun s id => I.value s (.object id))
    (keeps_withStore hobject.step hobject.value) ?_
  intro id m₁ hstep hplace hid
  have h₁ := h.after hI hstep hplace
  have harguments₁ : ∀ v ∈ arguments, I.value m₁.store v :=
    fun v hv => hI.value_later hstep.later (harguments v hv)
  cases hinitializer : c.initializer? with
  | none => exact keeps_pure hI h₁ hid
  | some method =>
    have hbound := hI.bindMethod h₁.holds (hI.value_later hstep.later hc) hinitializer hid
    refine Keeps.bind hI (Q := fun s f => I.value s (.function f))
      (keeps_withStore hbound.step hbound.value) ?_
    intro f m₂ hstep hplace hf
    have h₂ := h₁.after hI hstep hplace
    have harguments₂ : ∀ v ∈ arguments, I.value m₂.store v :=
      fun v hv => hI.value_later hstep.later (harguments₁ v hv)
    have hid₂ := hI.value_later hstep.later hid
    refine Keeps.bind hI (keeps_callFunction hI hrun h₂ hf harguments₂ line) ?_
    intro _ m₃ hstep hplace _
    exact keeps_pure hI (h₂.after hI hstep hplace) (hI.value_later hstep.later hid₂)

/-- **Everything that code can do keeps the invariant**, calls of values at hand in particular. The
induction is on the fuel, which bounds how deep calls nest. -/
theorem callsKeep (fuel : Nat) : I.CallsKeep (callAtFuel fuel) := by
  induction fuel with
  | zero => exact fun _ h _ _ => keeps_throw hI h _
  | succ fuel ih =>
    have hrun : I.BodiesKeep code fun body => Stmt.executeAll (callAtFuel fuel) fuel body :=
      fun hoccurs _ h hdeclarable =>
        Stmt.listKeeps hI ih fuel _ hoccurs h fun _ _ name _ => hdeclarable name
    intro m callee arguments line h hcallee harguments
    rw [callAtFuel]
    cases callee with
    | function f => exact keeps_callFunction hI hrun h hcallee harguments line
    | classValue c => exact keeps_construct hI hrun h hcallee harguments line
    | _ => exact keeps_throw hI h _

/-- Evaluating an expression of the code keeps the invariant. -/
theorem keeps_evaluateAtFuel (fuel : Nat) {e : Expr} (hoccurs : e.Occurs code) {m : Machine}
    (h : I.At m) : I.Keeps m (evaluateAtFuel fuel e m) I.value :=
  Expr.keeps hI (callsKeep hI fuel) e hoccurs h

/-- Executing a statement of the code keeps the invariant. -/
theorem keeps_executeAtFuel (fuel : Nat) {s : Stmt} (hoccurs : s.Occurs code) {m : Machine}
    (h : I.At m) (hnames : ∀ name ∈ s.declares, I.declarable m.store m.scope name) :
    I.Keeps m (executeAtFuel fuel s m) I.leaves :=
  Stmt.keeps hI (callsKeep hI fuel) fuel s hoccurs h hnames

end Invariant

end Quill
