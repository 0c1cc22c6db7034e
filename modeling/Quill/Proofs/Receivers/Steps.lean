import Quill.Proofs.Receivers.Origins

/-!
# The steps of a session

A session is followed step by step (`StepsTo`), with the parts that its steps are made of. Two things
hold of all parts: that what is at hand in them has known origins (`StepsTo.sourced`), and that their
receivers are those in which the session ends (`StepsTo.keeps_machine`).
-/

namespace Quill

open Eval

/-! ## Steps of a session -/

/-- The steps of a session, the last one first, and the state in which it has ended. -/
inductive StepsTo (sink : Sink) : List Point → Machine → Prop
  | start : StepsTo sink [] (.ofSink sink)
  | step {steps m p} (h : StepsTo sink steps m) (hbegins : m.Begins p) :
    StepsTo sink (p :: steps) p.ending

/-- The state is one that the session has been in: the first one, or one in which a part of a step has
begun or ended. -/
inductive Visited (sink : Sink) (steps : List Point) : Machine → Prop
  | first : Visited sink steps (.ofSink sink)
  | before {q} (hq : Reached steps q) : Visited sink steps q.machine
  | behind {q} (hq : Reached steps q) : Visited sink steps q.ending

/-- Receivers are kept by the code of programs. -/
theorem keptReceivers : (Store.receivers Stmt.Parsed).Kept Stmt.Parsed :=
  Store.kept_receivers not_targets_receiverName

section

variable {steps steps' : List Point} {m : Machine} {p q : Point}

/-- Every reachable state has its receivers alone in their scopes. -/
theorem Machine.Reachable.receivers (h : m.Reachable) :
    (Store.receivers Stmt.Parsed).Ready m :=
  h.ready keptReceivers ⟨Store.ordered_empty, .empty⟩

/-! ### What a step begins with -/

/-- Beginning a step keeps the receivers. -/
theorem Machine.Begins.keepsReceivers (h : m.Begins p) :
    m.store.KeepsReceivers p.machine.store := by
  cases h with
  | run hparse fuel => exact .addScope m.store []
  | execute hs fuel => exact .refl m.store
  | evaluate he fuel => exact .refl m.store

/-- The code that a step begins with holds no function. -/
theorem Machine.Begins.task_sourced (h : m.Begins p) : p.task.Sourced steps := by
  cases h with
  | _ => trivial

/-- Beginning a step keeps the origins known. -/
theorem Machine.Begins.store_sourced (h : m.Begins p) (hm : m.store.Sourced steps) :
    p.machine.store.Sourced steps := by
  cases h with
  | run hparse fuel => exact hm.addScope []
  | execute hs fuel => exact hm
  | evaluate he fuel => exact hm

/-- In a fresh global scope no name is found. -/
theorem Machine.get?_restart (m : Machine) (name : String) :
    m.restart.store.get? m.restart.scope name = none := by
  have hown : m.restart.store.own? m.restart.scope name = none := m.store.own?_addScope_self [] name
  have henclosing : m.restart.store.enclosing m.restart.scope = [] :=
    m.store.enclosing_addScope_self []
  rw [Store.get?, Store.chain, henclosing, List.findSome?_cons, hown, List.findSome?_nil]

/-- Where no receiver is bound, none is where a step begins. -/
theorem Machine.Begins.get? (h : m.Begins p)
    (hm : m.store.get? m.scope receiverName = none) :
    p.machine.store.get? p.machine.scope receiverName = none := by
  cases h with
  | run hparse fuel => exact m.get?_restart receiverName
  | execute hs fuel => exact hm
  | evaluate he fuel => exact hm

/-- What is at hand at a point stays known when further steps are made. -/
theorem Point.Sourced.mono (h : q.Sourced steps) (hsteps : steps ⊆ steps') :
    q.Sourced steps' where
  stands := by
    obtain ⟨bound?, hstands⟩ := h.stands
    exact ⟨bound?, hstands.mono hsteps⟩
  store := h.store.mono hsteps
  task := by
    have htask := h.task
    obtain ⟨fuel, task, machine⟩ := q
    cases task with
    | call callee arguments line =>
      exact ⟨htask.1.mono hsteps, fun v hv => (htask.2 v hv).mono hsteps⟩
    | _ => trivial

end

/-! ### What holds of all parts -/

namespace StepsTo

variable {sink : Sink} {steps : List Point} {m : Machine} {p q : Point}

/-- The state in which steps have ended is reachable. -/
theorem reachable (h : StepsTo sink steps m) : m.Reachable := by
  induction h with
  | start => exact .start sink
  | step _ hbegins ih => exact .after ih hbegins

/-- In all points of the steps the code is ready to run. -/
theorem readySteps (h : StepsTo sink steps m) : ReadySteps steps := by
  rintro q ⟨p, hp, hreaches⟩
  induction h with
  | start => cases hp
  | @step _ m _ h hbegins ih =>
    rcases List.mem_cons.1 hp with rfl | hp
    · obtain ⟨hready, hallows⟩ := hbegins.ready keptReceivers h.reachable.receivers
      exact Invariant.reaches_ready keptReceivers hreaches hready hallows
    · exact ih hp

/-- Every part has known origins at hand, and so has the session when it has ended. -/
theorem sourced (h : StepsTo sink steps m) :
    m.store.Sourced steps ∧ ∀ {q}, Reached steps q → q.Sourced steps := by
  induction h with
  | start =>
    refine ⟨Store.Sourced.empty.addScope [], ?_⟩
    rintro q ⟨p, hp, -⟩
    cases hp
  | @step steps m p h hbegins ih =>
    have hsteps : ReadySteps (p :: steps) := (h.step hbegins).readySteps
    have hmono : steps ⊆ p :: steps := List.subset_cons_self p steps
    have hp : p.Sourced (p :: steps) :=
      { stands := ⟨none, .top List.mem_cons_self⟩
        store := hbegins.store_sourced (ih.1.mono hmono)
        task := hbegins.task_sourced }
    refine ⟨(Point.sources hsteps hp).store, ?_⟩
    rintro q ⟨first, hfirst, hreaches⟩
    rcases List.mem_cons.1 hfirst with rfl | hfirst
    · induction hreaches with
      | refl => exact hp
      | step _ hstep hwhole =>
        exact enters_sourced hsteps (fun _ hpart => Point.sources hsteps hpart) hstep hwhole
    · exact (ih.2 ⟨first, hfirst, hreaches⟩).mono hmono

/-- A step keeps all receivers. -/
theorem keeps_step (h : StepsTo sink steps m) (hbegins : m.Begins p) :
    m.store.KeepsReceivers p.ending.store := by
  obtain ⟨hready, hallows⟩ := hbegins.ready keptReceivers h.reachable.receivers
  exact hbegins.keepsReceivers.trans (Invariant.later_ending keptReceivers hready hallows)

/-- The receivers of the first state are kept to the end. -/
theorem keeps_first (h : StepsTo sink steps m) :
    (Machine.ofSink sink).store.KeepsReceivers m.store := by
  induction h with
  | start => exact .refl _
  | step h hbegins ih => exact ih.trans (h.keeps_step hbegins)

/-- The receivers at the end of a part are those at the end of the session. -/
theorem keeps_ending (h : StepsTo sink steps m) (hq : Reached steps q) :
    q.ending.store.KeepsReceivers m.store := by
  obtain ⟨first, hfirst, hreaches⟩ := hq
  induction h with
  | start => cases hfirst
  | step h hbegins ih =>
    rcases List.mem_cons.1 hfirst with rfl | hfirst
    · obtain ⟨hready, hallows⟩ := hbegins.ready keptReceivers h.reachable.receivers
      exact Invariant.reaches_later keptReceivers hreaches hready hallows
    · exact (ih hfirst).trans (h.keeps_step hbegins)

/-- The receivers of every point that is reached are kept to the end. -/
theorem keeps_machine (h : StepsTo sink steps m) (hq : Reached steps q) :
    q.machine.store.KeepsReceivers m.store := by
  obtain ⟨hready, hallows⟩ := h.readySteps hq
  have hpart := Invariant.later_ending keptReceivers hready hallows
  exact Store.KeepsReceivers.trans hpart (h.keeps_ending hq)

/-- The receivers of every state in between are kept to the end. -/
theorem keeps_visited (h : StepsTo sink steps m) {n : Machine} (hn : Visited sink steps n) :
    n.store.KeepsReceivers m.store := by
  cases hn with
  | first => exact h.keeps_first
  | before hq => exact h.keeps_machine hq
  | behind hq => exact h.keeps_ending hq

/-- Every state in between is ready for code to run. -/
theorem ready_visited (h : StepsTo sink steps m) {n : Machine} (hn : Visited sink steps n) :
    (Store.receivers Stmt.Parsed).Ready n := by
  cases hn with
  | first => exact Machine.Reachable.receivers (.start sink)
  | before hq => exact (h.readySteps hq).1
  | behind hq =>
    obtain ⟨hready, hallows⟩ := h.readySteps hq
    exact Invariant.ready_ending keptReceivers hready hallows

/-- What a part sees as the receiver, it sees at the end of the session. -/
theorem get?_receiverName (h : StepsTo sink steps m) (hq : Reached steps q) :
    m.store.get? q.machine.scope receiverName =
      q.machine.store.get? q.machine.scope receiverName := by
  have hready := (h.readySteps hq).1
  exact (h.keeps_machine hq).get? hready.place hready.holds.1.nested

/-- Between the steps there is no receiver, nor where a step begins. -/
theorem get?_topLevel (h : StepsTo sink steps m) :
    m.store.get? m.scope receiverName = none ∧
      ∀ p ∈ steps, p.machine.store.get? p.machine.scope receiverName = none := by
  induction h with
  | start => exact ⟨Machine.get?_restart _ _, nofun⟩
  | @step steps m p h hbegins ih =>
    have hp := hbegins.get? ih.1
    have hready := ((h.step hbegins).readySteps (.head p steps)).1
    have hkeeps := (h.step hbegins).keeps_machine (.head p steps)
    refine ⟨?_, List.forall_mem_cons.2 ⟨hp, ih.2⟩⟩
    rw [p.samePlace.scope, hkeeps.get? hready.place hready.holds.1.nested, hp]

end StepsTo

end Quill
