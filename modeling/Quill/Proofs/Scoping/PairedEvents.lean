import Quill.Proofs.Evaluation.PairedRuns

/-!
# Paired states have paired events

What a run does to bindings depends on lines no more than what it prints. A tree and the same tree on
other lines have the same events from paired states, in the same order, up to the numbers of scopes
and the lines of names (`Expr.eventsPair`, `Stmt.eventsPair`, `callEventsPair`). The proof goes along
the events as the one for evaluation goes along the evaluation, and needs that one wherever something
follows a part: the parts end in paired states.

Where both runs begin in the same state, the numbers of scopes are the same too, and the events of
one program are those of the other, on other lines (`Program.eventsAtFuel_mapLines`).
-/

namespace Quill

open Eval
open Events (andThen)

variable {P : Pairing}

/-- The event, its name on another line. -/
def Event.mapLine (f : Nat → Nat) : Event → Event
  | .introduced scope name => .introduced scope name
  | .declared scope name => .declared scope name
  | .assigned scope name => .assigned scope (name.mapLine f)

/-- The events are the same up to the numbers of scopes and the lines of names. -/
inductive Event.Paired (P : Pairing) : Event → Event → Prop
  | introduced {id id' : ScopeId} (h : P.Scopes id id') (name : String) :
      Paired P (.introduced id name) (.introduced id' name)
  | declared {id id' : ScopeId} (h : P.Scopes id id') (name : String) :
      Paired P (.declared id name) (.declared id' name)
  | assigned {id id' : ScopeId} (h : P.Scopes id id') (name : Name) :
      Paired P (.assigned id name) (.assigned id' (name.mapLine P.line))

/-- From paired states the events are the same, one after another. -/
def EventsPair (P : Pairing) (events events' : Events) : Prop :=
  ∀ ⦃m m' : Machine⦄, m.Paired P m' → List.Forall₂ (Event.Paired P) (events m) (events' m')

namespace EventsPair

/-- Where nothing happens, the same happens. -/
theorem none : EventsPair P .none .none := fun _ _ _ => .nil

/-- The events of two parts in order are paired where the events of each part are and the first part
comes to paired results. -/
theorem andThen {α α' : Type} {R : α → α' → Prop} {first first' : Events} {x : Eval α} {y : Eval α'}
    {rest : α → Events} {rest' : α' → Events} (hfirst : EventsPair P first first')
    (hx : Pairs P R x y) (hrest : ∀ {a a'}, R a a' → EventsPair P (rest a) (rest' a')) :
    EventsPair P (first.andThen x rest) (first'.andThen y rest') := by
  intro m m' hm
  have hresult := hx hm
  generalize hread : x m = result at hresult
  generalize hread' : y m' = result' at hresult
  cases hresult with
  | ok h hn =>
    rw [Events.andThen_of_ok hread, Events.andThen_of_ok hread']
    exact List.rel_append (hfirst hm) (hrest h hn)
  | error stop hn =>
    rw [Events.andThen_of_error hread, Events.andThen_of_error hread']
    exact hfirst hm

/-- Two choices that are made alike have paired events if both ways do. -/
theorem ite {p q : Prop} [Decidable p] [Decidable q] {first first' second second' : Events}
    (hpq : p ↔ q) (hfirst : EventsPair P first first') (hsecond : EventsPair P second second') :
    EventsPair P (if p then first else second) (if q then first' else second') :=
  rel_ite hpq hfirst hsecond

/-- A variable is declared in paired scopes. -/
theorem ofVariable (name : String) : EventsPair P (.ofVariable name) (.ofVariable name) :=
  fun _ _ hm => .cons (.introduced hm.scope name) .nil

/-- A function or class is declared in paired scopes. -/
theorem ofDeclaration (name : String) : EventsPair P (.ofDeclaration name) (.ofDeclaration name) :=
  fun _ _ hm => .cons (.declared hm.scope name) .nil

/-- An assignment meets bindings of paired scopes, or none in both runs. -/
theorem ofAssignment (name : Name) :
    EventsPair P (.ofAssignment name) (.ofAssignment (name.mapLine P.line)) := by
  intro m m' hm
  have howner := hm.store.owner? hm.scope name.text
  unfold Events.ofAssignment
  rw [Name.text_mapLine]
  generalize m.store.owner? m.scope name.text = found at howner
  generalize m'.store.owner? m'.scope name.text = found' at howner
  cases howner with
  | some hid => exact .cons (.assigned hid name) .nil
  | none => exact .nil

/-- Events in paired scopes are paired where the events are. -/
theorem inScope {id id' : ScopeId} (hid : P.Scopes id id') {events events' : Events}
    (h : EventsPair P events events') : EventsPair P (.inScope id events) (.inScope id' events') :=
  fun _ _ hm => h (hm.withScope hid)

end EventsPair

/-- Calls of paired values with paired arguments have paired events. -/
def CallEventsPair (P : Pairing) (calls calls' : CallEvents) : Prop :=
  ∀ {f f' : Value} {arguments arguments' : List Value}, f.Paired P f' →
    List.Forall₂ (Value.Paired P) arguments arguments' →
      EventsPair P (calls f arguments) (calls' f' arguments')

/-! ## Trees -/

section

variable {call call' : Caller} {calls calls' : CallEvents}

mutual

/-- The events of an expression and of the same one on other lines. -/
theorem Expr.eventsPair (hcalls : CallsPair P call call') (hevents : CallEventsPair P calls calls') :
    (e : Expr) → EventsPair P (e.events call calls) ((e.mapLines P.line).events call' calls')
  | .literal value line => by
    rw [Expr.mapLines, Expr.events, Expr.events]
    exact .none
  | .unary operator operand => by
    rw [Expr.mapLines, Expr.events, Expr.events]
    exact Expr.eventsPair hcalls hevents operand
  | .binary left operator right => by
    rw [Expr.mapLines, Expr.events, Expr.events]
    exact (Expr.eventsPair hcalls hevents left).andThen (Expr.pairs hcalls left)
      fun _ => Expr.eventsPair hcalls hevents right
  | .group inner => by
    rw [Expr.mapLines, Expr.events, Expr.events]
    exact Expr.eventsPair hcalls hevents inner
  | .reference name => by
    rw [Expr.mapLines, Expr.events, Expr.events]
    exact .none
  | .assign name value => by
    rw [Expr.mapLines, Expr.events, Expr.events]
    exact (Expr.eventsPair hcalls hevents value).andThen (Expr.pairs hcalls value)
      fun _ => .ofAssignment name
  | .call callee arguments line => by
    rw [Expr.mapLines, Expr.events, Expr.events]
    apply (Expr.eventsPair hcalls hevents callee).andThen (Expr.pairs hcalls callee)
    intro f f' hf
    apply (Expr.listEventsPair hcalls hevents arguments).andThen (Expr.listPairs hcalls arguments)
    intro values values' hvalues
    exact hevents hf hvalues
  | .get object property => by
    rw [Expr.mapLines, Expr.events, Expr.events]
    exact Expr.eventsPair hcalls hevents object
  | .set object property value => by
    rw [Expr.mapLines, Expr.events, Expr.events]
    apply (Expr.eventsPair hcalls hevents object).andThen (Expr.pairs hcalls object)
    intro target target' htarget
    exact EventsPair.none.andThen (pairs_objectOf htarget property.line)
      fun _ => Expr.eventsPair hcalls hevents value
  | .this line => by
    rw [Expr.mapLines, Expr.events, Expr.events]
    exact .none

/-- The events of expressions and of the same ones on other lines. -/
theorem Expr.listEventsPair (hcalls : CallsPair P call call')
    (hevents : CallEventsPair P calls calls') : (es : List Expr) →
      EventsPair P (Expr.listEvents call calls es)
        (Expr.listEvents call' calls' (Expr.listMapLines P.line es))
  | [] => by
    rw [Expr.listMapLines, Expr.listEvents, Expr.listEvents]
    exact .none
  | e :: rest => by
    rw [Expr.listMapLines, Expr.listEvents, Expr.listEvents]
    exact (Expr.eventsPair hcalls hevents e).andThen (Expr.pairs hcalls e)
      fun _ => Expr.listEventsPair hcalls hevents rest

end

/-- The events of an expression that may be missing, and of the same one on other lines. -/
theorem Expr.optionEventsPair (hcalls : CallsPair P call call')
    (hevents : CallEventsPair P calls calls') (e : Option Expr) :
    EventsPair P (Expr.optionEvents call calls e)
      (Expr.optionEvents call' calls' (e.map (Expr.mapLines P.line))) := by
  cases e with
  | none => exact .none
  | some e => exact Expr.eventsPair hcalls hevents e

/-- The events of loops that go on for as many rounds. -/
theorem loopEventsPair {condition condition' : Eval Value} {body body' : Eval Flow}
    {conditionEvents conditionEvents' bodyEvents bodyEvents' : Events}
    (hcondition : Pairs P (Value.Paired P) condition condition')
    (hbody : Pairs P (Flow.Paired P) body body')
    (hconditionEvents : EventsPair P conditionEvents conditionEvents')
    (hbodyEvents : EventsPair P bodyEvents bodyEvents') (fuel : Nat) :
    EventsPair P (loopEvents condition conditionEvents body bodyEvents fuel)
      (loopEvents condition' conditionEvents' body' bodyEvents' fuel) := by
  induction fuel with
  | zero => exact .none
  | succ fuel ih =>
    apply hconditionEvents.andThen hcondition
    intro v v' hv
    rw [hv.isTruthy_eq]
    apply EventsPair.ite Iff.rfl
    · apply hbodyEvents.andThen hbody
      intro flow flow' hflow
      cases hflow with
      | normal => exact ih
      | returned _ => exact .none
    · exact .none

mutual

/-- The events of a statement and of the same one on other lines. -/
theorem Stmt.eventsPair (hcalls : CallsPair P call call') (hevents : CallEventsPair P calls calls')
    (fuel : Nat) : (s : Stmt) →
      EventsPair P (s.events call calls fuel) ((s.mapLines P.line).events call' calls' fuel)
  | .expression value => by
    rw [Stmt.mapLines, Stmt.events, Stmt.events]
    exact Expr.eventsPair hcalls hevents value
  | .print value => by
    rw [Stmt.mapLines, Stmt.events, Stmt.events]
    exact Expr.eventsPair hcalls hevents value
  | .declare name initial => by
    rw [Stmt.mapLines, Stmt.events, Stmt.events]
    exact (Expr.optionEventsPair hcalls hevents initial).andThen (Expr.optionPairs hcalls initial)
      fun _ => .ofVariable name.text
  | .block body => by
    rw [Stmt.mapLines, Stmt.events, Stmt.events]
    intro m m' hm
    refine EventsPair.none.andThen (pairs_newScope hm.scope) (fun hscope => ?_) hm
    exact .inScope hscope (Stmt.listEventsPair hcalls hevents fuel body)
  | .branch condition thenBranch none => by
    rw [Stmt.mapLines, Stmt.events, Stmt.events]
    apply (Expr.eventsPair hcalls hevents condition).andThen (Expr.pairs hcalls condition)
    intro v v' hv
    rw [hv.isTruthy_eq]
    exact .ite Iff.rfl (Stmt.eventsPair hcalls hevents fuel thenBranch) .none
  | .branch condition thenBranch (some elseBranch) => by
    rw [Stmt.mapLines, Stmt.events, Stmt.events]
    apply (Expr.eventsPair hcalls hevents condition).andThen (Expr.pairs hcalls condition)
    intro v v' hv
    rw [hv.isTruthy_eq]
    exact .ite Iff.rfl (Stmt.eventsPair hcalls hevents fuel thenBranch)
      (Stmt.eventsPair hcalls hevents fuel elseBranch)
  | .loop condition body => by
    rw [Stmt.mapLines, Stmt.events, Stmt.events]
    exact loopEventsPair (Expr.pairs hcalls condition) (Stmt.pairs hcalls fuel body)
      (Expr.eventsPair hcalls hevents condition) (Stmt.eventsPair hcalls hevents fuel body) fuel
  | .leave line value => by
    rw [Stmt.mapLines, Stmt.events, Stmt.events]
    exact Expr.optionEventsPair hcalls hevents value
  | .function f => by
    rw [Stmt.mapLines, Stmt.events, Stmt.events, FunctionDecl.name_mapLines]
    exact .ofDeclaration f.name.text
  | .classOf c => by
    rw [Stmt.mapLines, Stmt.events, Stmt.events, ClassDecl.name_mapLines]
    exact .ofDeclaration c.name.text

/-- The events of statements and of the same ones on other lines. -/
theorem Stmt.listEventsPair (hcalls : CallsPair P call call')
    (hevents : CallEventsPair P calls calls') (fuel : Nat) : (body : List Stmt) →
      EventsPair P (Stmt.listEvents call calls fuel body)
        (Stmt.listEvents call' calls' fuel (Stmt.listMapLines P.line body))
  | [] => by
    rw [Stmt.listMapLines, Stmt.listEvents, Stmt.listEvents]
    exact .none
  | s :: rest => by
    rw [Stmt.listMapLines, Stmt.listEvents, Stmt.listEvents]
    apply (Stmt.eventsPair hcalls hevents fuel s).andThen (Stmt.pairs hcalls fuel s)
    intro flow flow' hflow
    cases hflow with
    | normal => exact Stmt.listEventsPair hcalls hevents fuel rest
    | returned _ => exact .none

end

end

/-! ## Calls -/

/-- The bodies of functions have paired events. -/
def BodyEventsPair (P : Pairing) (run run' : List Stmt → Events) : Prop :=
  ∀ body : List Stmt, EventsPair P (run body) (run' (Stmt.listMapLines P.line body))

section

variable {run run' : List Stmt → Events} {arguments arguments' : List Value}

/-- Paired functions have paired events when they are called. -/
theorem functionEventsPair (hrun : BodyEventsPair P run run') {f f' : FunctionValue}
    (hf : f.Paired P f') (harguments : List.Forall₂ (Value.Paired P) arguments arguments') :
    EventsPair P (functionEvents run f arguments) (functionEvents run' f' arguments') := by
  intro m m' hm
  have harity : f'.declaration.arity = f.declaration.arity := by
    rw [hf.declaration, FunctionDecl.arity_mapLines]
  have hbody : f'.declaration.body = Stmt.listMapLines P.line f.declaration.body := by
    rw [hf.declaration, FunctionDecl.body_mapLines]
  unfold functionEvents
  rw [harity, ← harguments.length_eq, hm.depth, hbody]
  apply rel_ite Iff.rfl .nil
  exact rel_ite Iff.rfl .nil (hrun f.declaration.body (hm.entering hf harguments))

/-- Paired classes have paired events when they are called. -/
theorem classEventsPair (hrun : BodyEventsPair P run run') {c c' : ClassValue}
    (hc : c.Paired P c') (harguments : List.Forall₂ (Value.Paired P) arguments arguments') :
    EventsPair P (classEvents run c arguments) (classEvents run' c' arguments') := by
  have hadd : Pairs P P.Objects (withStore fun s => s.addObject c)
      (withStore fun s => s.addObject c') := by
    apply pairs_withStore
    intro s s' hs
    exact ⟨hs.objects, hs.addObject hc⟩
  intro m m' hm
  unfold classEvents
  rw [hc.arity_eq, ← harguments.length_eq]
  apply rel_ite Iff.rfl .nil
  refine EventsPair.none.andThen hadd (fun {id id'} hid => ?_) hm
  unfold initializerEvents ClassValue.initializer?
  rw [hc.method?_eq]
  cases c.method? initializerName with
  | none => exact .none
  | some method =>
    have hbind : Pairs P (FunctionValue.Paired P)
        (withStore fun s => s.bindMethod c method id)
        (withStore fun s => s.bindMethod c' (method.mapLines P.line) id') := by
      apply pairs_withStore
      intro s s' hs
      exact hs.bindMethod hc method hid
    exact EventsPair.none.andThen hbind fun hf => functionEventsPair hrun hf harguments

end

/-- With the same fuel, calls of paired values have paired events. -/
theorem callEventsPair (fuel : Nat) :
    CallEventsPair P (callEventsAtFuel fuel) (callEventsAtFuel fuel) := by
  induction fuel with
  | zero => exact fun _ _ => .none
  | succ fuel ih =>
    intro f f' arguments arguments' hf harguments
    have hbodies : BodyEventsPair P
        (fun body => Stmt.listEvents (callAtFuel fuel) (callEventsAtFuel fuel) fuel body)
        fun body => Stmt.listEvents (callAtFuel fuel) (callEventsAtFuel fuel) fuel body :=
      Stmt.listEventsPair (callsPair fuel) ih fuel
    rw [callEventsAtFuel]
    cases hf with
    | function hf => exact functionEventsPair hbodies hf harguments
    | classValue hc => exact classEventsPair hbodies hc harguments
    | _ => exact .none

/-! ## Programs -/

/-- Scopes with the same number up to the same start are the same. -/
theorem eq_of_aligned {start i j : Nat} (h : Aligned start start i j) : i = j := by
  obtain ⟨k, rfl, rfl⟩ := h
  rfl

/-- Where both runs begin in the same state, paired events are the same on other lines. -/
theorem Event.Paired.eq_mapLine {f : Nat → Nat} {m : Machine} {event event' : Event}
    (h : event.Paired (Pairing.ofLines f m m) event') : event' = event.mapLine f := by
  have hscope : ∀ {id id' : ScopeId}, (Pairing.ofLines f m m).Scopes id id' → id' = id := by
    rintro ⟨i⟩ ⟨j⟩ hid
    exact congrArg ScopeId.mk (eq_of_aligned hid).symm
  cases h with
  | introduced h name => rw [hscope h, Event.mapLine]
  | declared h name => rw [hscope h, Event.mapLine]
  | assigned h name =>
    rw [hscope h, Event.mapLine]
    rfl

/-- The events of a run of a program on other lines are those of the program, on these lines. -/
theorem Program.eventsAtFuel_mapLines (f : Nat → Nat) (fuel : Nat) (program : Program)
    (m : Machine) :
    (program.mapLines f).eventsAtFuel fuel m =
      (program.eventsAtFuel fuel m).map (Event.mapLine f) := by
  have hstart : m.restart.Paired (Pairing.ofLines f m m) m.restart :=
    Machine.paired_restart rfl rfl rfl
  have hevents := Stmt.listEventsPair (callsPair fuel) (callEventsPair fuel) fuel
    program.declarations hstart
  have hsame : List.Forall₂ (· = ·) ((program.eventsAtFuel fuel m).map (Event.mapLine f))
      ((program.mapLines f).eventsAtFuel fuel m) :=
    List.forall₂_map_left_iff.2 (hevents.imp fun _ _ h => h.eq_mapLine.symm)
  rw [List.forall₂_eq_eq_eq] at hsame
  exact hsame.symm

end Quill
