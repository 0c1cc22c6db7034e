import Quill.Proofs.Evaluation.Invariants

/-!
# Sessions

A session begins on a machine with nothing but a global scope. It runs programs, executes statements
and evaluates expressions that occur in programs, one after another and each with any fuel; a step
may come to any end. `Machine.Reachable` is true of all states that sessions get to, between the
steps and in the midst of them: where a part of a step begins, down to the bodies of the functions
that it calls.

An invariant that holds of the empty store holds of every reachable state (`Machine.Reachable.ready`).
Between the steps this is `Invariant.Keeps`; in their midst it goes along the points of a run, since
every part of a part that is ready to run is ready to run itself (`Enters.ready`).
-/

namespace Quill

open Eval

/-! ## Points of a run -/

namespace Invariant

variable {I : Invariant} {code : Stmt → Prop}

/-- Code may run in the state and declare any name there. -/
structure Ready (I : Invariant) (m : Machine) : Prop extends I.At m where
  declarable : ∀ name, I.declarable m.store m.scope name

/-- What is done comes from the code, or it is a call of values at hand. -/
def Allows (I : Invariant) (code : Stmt → Prop) (m : Machine) : Task → Prop
  | .expression e => e.Occurs code
  | .expressions es => ∀ e ∈ es, e.Occurs code
  | .statement s => s.Occurs code
  | .statements body => ∀ s ∈ body, s.Occurs code
  | .loop condition body _ => condition.Occurs code ∧ body.Occurs code
  | .call callee arguments _ => I.value m.store callee ∧ ∀ v ∈ arguments, I.value m.store v

variable (hI : I.Kept code)

/-- After a step that ends in the same place, code may run again. -/
theorem Ready.after {m m' : Machine} (h : I.Ready m) (hI : I.Kept code)
    (hstep : I.Step m.store m'.store) (hplace : m.SamePlace m') : I.Ready m' where
  toAt := h.toAt.after hI hstep hplace
  declarable name := declarable_after hI hstep hplace (h.declarable name)

/-- After an action that keeps the invariant and has a value, code may run again. -/
theorem Ready.of_keeps {m m' : Machine} (h : I.Ready m) (hI : I.Kept code) {α : Type}
    {action : Eval α} {Q : Store → α → Prop} (hkeeps : I.Keeps m (action m) Q) {a : α}
    (hok : action m = .ok a m') : I.Ready m' ∧ I.Step m.store m'.store ∧ Q m'.store a := by
  obtain ⟨hstep, hplace, hyields⟩ := hkeeps
  rw [hok] at hstep hplace
  exact ⟨h.after hI hstep hplace, hstep, hyields hok⟩

/-- In a scope that has been opened code may run. -/
theorem Ready.of_opens {s s' : Store} {scope : ScopeId} (h : I.Opens s scope s') (depth : Nat)
    (sink : Sink) : I.Ready ⟨s', scope, depth, sink⟩ where
  holds := h.step.holds
  place := h.place
  declarable := h.declarable

include hI

/-- After an expression that has a value, code may run again. -/
theorem Ready.evaluate {fuel : Nat} {e : Expr} {m m' : Machine} {v : Value} (h : I.Ready m)
    (hoccurs : e.Occurs code) (hok : evaluateAtFuel fuel e m = .ok v m') :
    I.Ready m' ∧ I.Step m.store m'.store ∧ I.value m'.store v :=
  h.of_keeps hI (keeps_evaluateAtFuel hI fuel hoccurs h.toAt) hok

/-- The function that a call of a value at hand invokes is at hand when it starts. -/
theorem ready_invoked? {m m' : Machine} {callee : Value} {f : FunctionValue} (h : I.Ready m)
    (hcallee : I.value m.store callee) (hinvoked : m.invoked? callee = some (f, m')) :
    I.Ready m' ∧ I.Step m.store m'.store ∧ I.value m'.store (.function f) := by
  cases callee with
  | function g =>
    cases hinvoked
    exact ⟨h, .refl hI h.holds, hcallee⟩
  | classValue c =>
    obtain ⟨method, hinitializer, rfl, rfl⟩ := exists_initializer_of_invoked? hinvoked
    have hobject := hI.addObject h.holds hcallee
    have hbound := hI.bindMethod hobject.step.holds (hI.value_later hobject.step.later hcallee)
      hinitializer hobject.value
    have hstep := hobject.step.trans hI hbound.step
    exact ⟨h.after hI hstep ⟨rfl, rfl⟩, hstep, hbound.value⟩
  | _ => cases hinvoked

/-- Every part of what is ready to run is ready to run. -/
theorem enters_ready {p q : Point} (hstep : Enters p q) (h : I.Ready p.machine)
    (hallows : I.Allows code p.machine p.task) :
    I.Ready q.machine ∧ I.Allows code q.machine q.task := by
  cases hstep with
  | operand => exact ⟨h, hallows.operand⟩
  | left => exact ⟨h, hallows.left⟩
  | right hleft => exact ⟨(h.evaluate hI hallows.left hleft).1, hallows.right⟩
  | inner => exact ⟨h, hallows.inner⟩
  | assigned => exact ⟨h, hallows.assigned⟩
  | callee => exact ⟨h, hallows.callee⟩
  | arguments hcallee =>
    exact ⟨(h.evaluate hI hallows.callee hcallee).1, fun e he => hallows.argument he⟩
  | @call fuel m callee arguments line f m₁ values m₂ hcallee harguments =>
    obtain ⟨h₁, -, hf⟩ := h.evaluate hI hallows.callee hcallee
    have hkeeps := Expr.listKeeps hI (callsKeep hI fuel) arguments
      (fun e he => hallows.argument he) h₁.toAt
    obtain ⟨h₂, hstep, hvalues⟩ := h₁.of_keeps hI hkeeps harguments
    exact ⟨h₂, hI.value_later hstep.later hf, hvalues⟩
  | ofGet => exact ⟨h, hallows.ofGet⟩
  | ofSet => exact ⟨h, hallows.ofSet⟩
  | set hobject => exact ⟨(h.evaluate hI hallows.ofSet hobject).1, hallows.set⟩
  | firstExpression => exact ⟨h, hallows _ List.mem_cons_self⟩
  | otherExpressions hfirst =>
    obtain ⟨he, hrest⟩ := List.forall_mem_cons.1 hallows
    exact ⟨(h.evaluate hI he hfirst).1, hrest⟩
  | effect => exact ⟨h, .effect hallows⟩
  | printed => exact ⟨h, .printed hallows⟩
  | initial => exact ⟨h, .initial hallows⟩
  | block =>
    exact ⟨.of_opens (hI.addChild h.holds h.place) _ _, fun s hs => hallows.block hs⟩
  | condition => exact ⟨h, .condition hallows⟩
  | thenBranch hcondition =>
    exact ⟨(h.evaluate hI (.condition hallows) hcondition).1, hallows.thenBranch⟩
  | elseBranch hcondition =>
    exact ⟨(h.evaluate hI (.condition hallows) hcondition).1, hallows.elseBranch⟩
  | loop => exact ⟨h, .loopCondition hallows, hallows.loop⟩
  | loopCondition => exact ⟨h, hallows.1⟩
  | loopBody hcondition => exact ⟨(h.evaluate hI hallows.1 hcondition).1, hallows.2⟩
  | @again fuel _ _ _ _ _ _ _ hcondition _ hbody =>
    have h₁ := (h.evaluate hI hallows.1 hcondition).1
    have hkeeps := keeps_executeAtFuel hI fuel hallows.2 h₁.toAt fun name _ => h₁.declarable name
    exact ⟨(h₁.of_keeps hI hkeeps hbody).1, hallows⟩
  | result => exact ⟨h, .result hallows⟩
  | firstStatement => exact ⟨h, hallows _ List.mem_cons_self⟩
  | @otherStatements fuel _ _ _ _ hfirst =>
    obtain ⟨hs, hrest⟩ := List.forall_mem_cons.1 hallows
    have hkeeps := keeps_executeAtFuel hI fuel hs h.toAt fun name _ => h.declarable name
    exact ⟨(h.of_keeps hI hkeeps hfirst).1, hrest⟩
  | @body _ _ _ arguments _ f m₁ hinvoked =>
    obtain ⟨h₁, hstep, hf⟩ := ready_invoked? hI h hallows.1 hinvoked
    have hopens := opens_entering hI h₁.holds hf fun v hv =>
      hI.value_later hstep.later (hallows.2 v hv)
    exact ⟨.of_opens hopens _ _, (hI.occurs hf).body⟩

/-- Wherever a run comes to from a state in which it may run, it may. -/
theorem reaches_ready {p q : Point} (hreaches : Reaches p q) (h : I.Ready p.machine)
    (hallows : I.Allows code p.machine p.task) :
    I.Ready q.machine ∧ I.Allows code q.machine q.task := by
  induction hreaches with
  | refl => exact ⟨h, hallows⟩
  | step _ hstep ih => exact enters_ready hI hstep ih.1 ih.2

/-- However a part ends that is ready to run, it keeps the invariant. -/
theorem step_ending {p : Point} (h : I.Ready p.machine)
    (hallows : I.Allows code p.machine p.task) : I.Step p.machine.store p.ending.store := by
  obtain ⟨fuel, task, m⟩ := p
  have hcalls : I.CallsKeep (callAtFuel fuel) := callsKeep hI fuel
  cases task with
  | expression e => exact (keeps_evaluateAtFuel hI fuel hallows h.toAt).step
  | expressions es => exact (Expr.listKeeps hI hcalls es hallows h.toAt).step
  | statement s =>
    exact (keeps_executeAtFuel hI fuel hallows h.toAt fun name _ => h.declarable name).step
  | statements body =>
    have hkeeps := Stmt.listKeeps hI hcalls fuel body hallows h.toAt
      fun _ _ name _ => h.declarable name
    exact hkeeps.step
  | loop condition body rounds =>
    have hkeeps := keeps_loopAtFuel hI (Expr.keeps hI hcalls condition hallows.1)
      (Stmt.keeps hI hcalls fuel body hallows.2) rounds h.toAt fun name _ => h.declarable name
    exact hkeeps.step
  | call callee arguments line => exact (hcalls line h.toAt hallows.1 hallows.2).step

/-- Code may run in the state that it leaves. -/
theorem ready_ending {p : Point} (h : I.Ready p.machine)
    (hallows : I.Allows code p.machine p.task) : I.Ready p.ending :=
  h.after hI (step_ending hI h hallows) p.samePlace

end Invariant

/-! ## States of a session -/

/-- What a session may begin to do in a state: to run a program, from a fresh global scope, or to
execute a statement or evaluate an expression of a program. -/
inductive Machine.Begins (m : Machine) : Point → Prop
  | run {source program} (hparse : parse source = .ok program) (fuel : Nat) :
    Machine.Begins m ⟨fuel, .statements program.declarations, m.restart⟩
  | execute {s} (hs : s.Occurs Stmt.Parsed) (fuel : Nat) :
    Machine.Begins m ⟨fuel, .statement s, m⟩
  | evaluate {e} (he : e.Occurs Stmt.Parsed) (fuel : Nat) :
    Machine.Begins m ⟨fuel, .expression e, m⟩

/-- The state is one that a session gets to: its first one, one in which a part of a step begins, or
one in which a step has ended. -/
inductive Machine.Reachable : Machine → Prop
  | start (sink : Sink) : Machine.Reachable (.ofSink sink)
  | during {m p q} (h : Machine.Reachable m) (hbegins : m.Begins p) (hreaches : Reaches p q) :
    Machine.Reachable q.machine
  | after {m p} (h : Machine.Reachable m) (hbegins : m.Begins p) : Machine.Reachable p.ending

/-- Passing on what was printed does not change the state. -/
theorem ending_flushing {α : Type} (action : Eval α) (m : Machine) :
    ending (flushing action m) = ending (action m) := by
  unfold flushing
  split
  · next haction => rw [haction]
  · next haction =>
    rw [haction]
    split
    · rfl
    · rfl
  · next haction =>
    rw [haction]
    split
    · rfl
    · rfl

/-- A program is run as the body of a function is. -/
theorem ending_runAtFuel (fuel : Nat) (program : Program) (m : Machine) :
    ending (runAtFuel fuel program m) =
      Point.ending ⟨fuel, .statements program.declarations, m.restart⟩ := by
  unfold runAtFuel
  rw [ending_flushing, runTopLevel_eq]
  show _ = ending (Stmt.executeAll (callAtFuel fuel) fuel program.declarations m.restart)
  cases Stmt.executeAll (callAtFuel fuel) fuel program.declarations m.restart with
  | ok flow m' => rfl
  | error stop m' => rfl

/-- Running a program ends in a reachable state. -/
theorem Machine.Reachable.run {m : Machine} (h : m.Reachable) {source : String}
    {program : Program} (hparse : parse source = .ok program) (fuel : Nat) :
    (ending (runAtFuel fuel program m)).Reachable := by
  rw [ending_runAtFuel]
  exact .after h (.run hparse fuel)

/-! ## Invariants of sessions -/

section

variable {I : Invariant} {m : Machine}

/-- What a session begins with may run. -/
theorem Machine.Begins.ready {p : Point} (h : m.Begins p) (hI : I.Kept Stmt.Parsed)
    (hready : I.Ready m) : I.Ready p.machine ∧ I.Allows Stmt.Parsed p.machine p.task := by
  cases h with
  | @run source program hparse fuel =>
    refine ⟨.of_opens (hI.addGlobal hready.holds) _ _, fun s hs => .top ?_⟩
    exact ⟨source, program, hparse, hs⟩
  | execute hs fuel => exact ⟨hready, hs⟩
  | evaluate he fuel => exact ⟨hready, he⟩

/-- **Invariants hold of reachable states**, if of the empty store. -/
theorem Machine.Reachable.ready (h : m.Reachable) (hI : I.Kept Stmt.Parsed)
    (hempty : I.holds .empty) : I.Ready m := by
  induction h with
  | start sink => exact .of_opens (hI.addGlobal hempty) _ _
  | during _ hbegins hreaches ih =>
    obtain ⟨hready, hallows⟩ := hbegins.ready hI ih
    exact (Invariant.reaches_ready hI hreaches hready hallows).1
  | after _ hbegins ih =>
    obtain ⟨hready, hallows⟩ := hbegins.ready hI ih
    exact Invariant.ready_ending hI hready hallows

end

end Quill
