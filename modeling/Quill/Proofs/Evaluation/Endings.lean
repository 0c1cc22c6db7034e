import Quill.Proofs.Evaluation.Sessions

/-!
# The ends of parts

The parts of a run are run one after another, and the whole ends when its last part has ended, or a
little later: when it has assigned what a part came to, say. So however a store is related to those
that it becomes, the store in which a part ends is related in that way to the one in which the whole
ends (`Invariant.enters_later`, `Invariant.reaches_later`).

For a part that is not the last one, this is because the next part begins where it has ended
(`Invariant.later_of_next`). The parts of a whole are gone through from the last to the first.
-/

namespace Quill

open Eval

namespace Eval

variable {α β : Type} {m m' : Machine}

/-- What follows the action does not change the state. -/
theorem ending_bind_of_quiet {x : Eval α} {f : α → Eval β} (hf : ∀ a m', ending (f a m') = m') :
    ending ((x >>= f) m) = ending (x m) := by
  cases hx : x m with
  | ok a m' =>
    rw [bind_eq_of_ok hx]
    exact hf a m'
  | error stop m' =>
    rw [bind_eq_of_error hx]
    rfl

/-- A result of an operator leaves the state alone. -/
theorem ending_ofExcept (result : Except Fault α) (m : Machine) :
    ending (ofExcept result m) = m := by
  cases result <;> rfl

/-- Coming back to a scope does not change the store. -/
theorem store_ending_inScope (scope : ScopeId) (action : Eval α) (m : Machine) :
    (ending (inScope scope action m)).store =
      (ending (action { m with scope := scope })).store := by
  unfold inScope
  cases action { m with scope := scope } <;> rfl

section

variable {run : List Stmt → Eval Flow} {f : FunctionValue} {arguments : List Value} {line : Nat}

/-- A function that may be called leaves the store that its body leaves. -/
theorem store_ending_callFunction (harity : arguments.length = f.declaration.arity)
    (hdepth : m.depth < maxCallDepth) :
    (ending (callFunction run f arguments line m)).store =
      (ending (run f.declaration.body (m.entering f arguments))).store := by
  rw [callFunction_eq, if_neg (not_not_intro harity), if_neg (Nat.not_le.2 hdepth)]
  cases run f.declaration.body (m.entering f arguments) with
  | error stop m' => rfl
  | ok flow m' =>
    cases flow with
    | normal => rfl
    | returned v => rfl

/-- Calling a value ends where the function ends that runs then. -/
theorem ending_callWith {callee : Value} (hinvoked : m.invoked? callee = some (f, m'))
    (harity : arguments.length = f.declaration.arity) :
    ending (callWith run callee arguments line m) =
      ending (callFunction run f arguments line m') := by
  cases callee with
  | function g =>
    cases hinvoked
    rfl
  | classValue c =>
    show ending (construct run c arguments line m) = _
    rw [construct_eq_of_invoked? run hinvoked harity line]
    exact ending_bind_of_quiet fun _ _ => rfl
  | _ => cases hinvoked

end

end Eval

namespace Invariant

variable {I : Invariant} {code : Stmt → Prop} (hI : I.Kept code)

include hI

/-- The store at the end is one that the store at the start becomes. -/
theorem later_ending {p : Point} (h : I.Ready p.machine)
    (hallows : I.Allows code p.machine p.task) : I.later p.machine.store p.ending.store :=
  (step_ending hI h hallows).later

/-- What comes later than the end of a part comes later than its start. -/
theorem later_through {p q : Point} (h : I.Ready p.machine)
    (hallows : I.Allows code p.machine p.task) (hstep : Enters p q) {s : Store}
    (hrest : I.later q.ending.store s) : I.later q.machine.store s := by
  obtain ⟨hready, hallows⟩ := enters_ready hI hstep h hallows
  exact hI.trans (later_ending hI hready hallows) hrest

omit hI

section

variable {α β : Type} {x : Eval α} {f : α → Eval β} {m m' : Machine}

/-- The same store is a later one. -/
theorem later_of_store_eq (hI : I.Kept code) {s s' : Store} (h : s' = s) : I.later s s' :=
  h ▸ hI.refl s

/-- The whole ends with its first part, or later than what follows begins. -/
theorem later_bind (hI : I.Kept code)
    (hf : ∀ a m', x m = .ok a m' → I.later m'.store (ending (f a m')).store) :
    I.later (ending (x m)).store (ending ((x >>= f) m)).store := by
  cases hx : x m with
  | ok a m' =>
    rw [bind_eq_of_ok hx]
    exact hf a m' hx
  | error stop m' =>
    rw [bind_eq_of_error hx]
    exact hI.refl m'.store

/-- What comes after the second part of a sequence comes after the sequence. -/
theorem later_after {a : α} (hx : x m = .ok a m') {s : Store}
    (h : I.later s (ending (f a m')).store) : I.later s (ending ((x >>= f) m)).store := by
  rwa [bind_eq_of_ok hx]

/-- What follows does not change the state. -/
theorem later_bind_quiet (hI : I.Kept code) (hf : ∀ a m', ending (f a m') = m') :
    I.later (ending (x m)).store (ending ((x >>= f) m)).store :=
  later_of_store_eq hI (congrArg Machine.store (ending_bind_of_quiet hf))

end

include hI

/-- The field is set when the value has been evaluated. -/
theorem later_setField {fuel : Nat} {object value : Expr} {property : Name} {m m₁ : Machine}
    {id : ObjectId} (h : I.Ready m) (hoccurs : (Expr.set object property value).Occurs code)
    (hobject : evaluateAtFuel fuel object m = .ok (.object id) m₁) :
    I.later (ending (evaluateAtFuel fuel value m₁)).store
      (ending ((evaluateAtFuel fuel value >>= fun v => do
        Eval.withStore fun s => ((), s.setField id property.text v)
        return v) m₁)).store := by
  obtain ⟨h₁, -, hid⟩ := h.evaluate hI hoccurs.ofSet hobject
  refine later_bind hI fun v m₂ hvalue => ?_
  obtain ⟨h₂, hstep, hv⟩ := h₁.evaluate hI hoccurs.set hvalue
  exact (hI.setField h₂.holds (hI.value_later hstep.later hid) hv property.text).later

/-- A round leaves the function, or the loop goes on behind it. -/
theorem later_round {fuel rounds : Nat} {condition : Expr} {body : Stmt} {m m₁ : Machine}
    {v : Value} (h : I.Ready m) (hallows : I.Allows code m (.loop condition body (rounds + 1)))
    (hcondition : evaluateAtFuel fuel condition m = .ok v m₁) (hv : v.isTruthy = true) :
    I.later (ending (executeAtFuel fuel body m₁)).store
      (ending ((executeAtFuel fuel body >>= fun flow =>
        match flow with
        | .normal => loopAtFuel (evaluateAtFuel fuel condition) (executeAtFuel fuel body) rounds
        | .returned w => return .returned w) m₁)).store := by
  refine later_bind hI fun flow m₂ hbody => ?_
  cases flow with
  | normal => exact later_through hI h hallows (.again hcondition hv hbody) (hI.refl _)
  | returned w => exact hI.refl _

/-- **Parts end before the whole does.** -/
theorem enters_later {p q : Point} (hstep : Enters p q) (h : I.Ready p.machine)
    (hallows : I.Allows code p.machine p.task) : I.later q.ending.store p.ending.store := by
  cases hstep with
  | operand => exact later_bind_quiet hI fun _ _ => ending_ofExcept _ _
  | left =>
    refine later_bind hI fun a m₁ hleft => later_through hI h hallows (.right hleft) ?_
    exact later_bind_quiet hI fun _ _ => ending_ofExcept _ _
  | right hleft =>
    exact later_after hleft (later_bind_quiet hI fun _ _ => ending_ofExcept _ _)
  | inner => exact hI.refl _
  | @assigned fuel m name value =>
    refine later_bind hI fun v m₁ hvalue => ?_
    obtain ⟨h₁, -, hv⟩ := h.evaluate hI hallows.assigned hvalue
    have hwrite := keeps_writeVariable hI h₁.toAt (.assigned hallows) hv name.line
    exact hI.trans hwrite.step.later (later_bind_quiet hI fun _ _ => rfl)
  | callee =>
    refine later_bind hI fun f m₁ hcallee => later_through hI h hallows (.arguments hcallee) ?_
    refine later_bind hI fun values m₂ harguments => ?_
    exact later_through hI h hallows (.call hcallee harguments) (hI.refl _)
  | arguments hcallee =>
    refine later_after hcallee (later_bind hI fun values m₂ harguments => ?_)
    exact later_through hI h hallows (.call hcallee harguments) (hI.refl _)
  | call hcallee harguments => exact later_after hcallee (later_after harguments (hI.refl _))
  | @ofGet fuel m object property =>
    refine later_bind hI fun target m₁ hobject => ?_
    obtain ⟨h₁, -, htarget⟩ := h.evaluate hI hallows.ofGet hobject
    have hread := Keeps.bind hI (keeps_objectOf hI h₁.toAt htarget property.line)
      fun id m₂ hstep hplace hid => keeps_readProperty hI (h₁.toAt.after hI hstep hplace) hid property
    exact hread.step.later
  | @ofSet fuel m object property value =>
    refine later_bind hI fun target m₁ hobject => ?_
    cases target with
    | object id =>
      exact later_through hI h hallows (.set hobject) (later_setField hI h hallows hobject)
    | _ => exact hI.refl _
  | set hobject => exact later_after hobject (later_setField hI h hallows hobject)
  | firstExpression =>
    refine later_bind hI fun a m₁ hfirst => ?_
    refine later_through hI h hallows (.otherExpressions hfirst) ?_
    exact later_bind_quiet hI fun _ _ => rfl
  | otherExpressions hfirst => exact later_after hfirst (later_bind_quiet hI fun _ _ => rfl)
  | effect => exact later_bind_quiet hI fun _ _ => rfl
  | printed =>
    refine later_bind hI fun v m₁ hvalue => ?_
    have h₁ := (h.evaluate hI (.printed hallows) hvalue).1
    exact hI.trans (keeps_printLine hI h₁.toAt v).step.later
      (later_bind_quiet hI fun _ _ => rfl)
  | @initial _ _ name =>
    refine later_bind hI fun v m₁ hvalue => ?_
    obtain ⟨h₁, -, hv⟩ := h.evaluate hI (.initial hallows) hvalue
    have hdeclare := keeps_declareVariable hI h₁.toAt (.variable hallows) hv
      (h₁.declarable name.text)
    exact hI.trans hdeclare.step.later (later_bind_quiet hI fun _ _ => rfl)
  | block =>
    refine later_of_store_eq hI ?_
    exact store_ending_inScope _ _ _
  | @condition _ _ _ _ elseBranch =>
    cases elseBranch with
    | none =>
      refine later_bind hI fun v m₁ hcondition => ?_
      by_cases hv : v.isTruthy = true
      · rw [if_pos hv]
        exact later_through hI h hallows (.thenBranch hcondition hv) (hI.refl _)
      · rw [if_neg hv]
        exact hI.refl _
    | some elseBranch =>
      refine later_bind hI fun v m₁ hcondition => ?_
      by_cases hv : v.isTruthy = true
      · rw [if_pos hv]
        exact later_through hI h hallows (.thenBranch hcondition hv) (hI.refl _)
      · rw [if_neg hv]
        have hfalse := Bool.not_eq_true v.isTruthy ▸ hv
        exact later_through hI h hallows (.elseBranch hcondition hfalse) (hI.refl _)
  | @thenBranch _ _ _ _ elseBranch _ _ hcondition hv =>
    cases elseBranch with
    | none =>
      refine later_after hcondition ?_
      rw [if_pos hv]
      exact hI.refl _
    | some elseBranch =>
      refine later_after hcondition ?_
      rw [if_pos hv]
      exact hI.refl _
  | elseBranch hcondition hv =>
    refine later_after hcondition ?_
    rw [if_neg (by simp [hv])]
    exact hI.refl _
  | loop => exact hI.refl _
  | loopCondition =>
    refine later_bind hI fun v m₁ hcondition => ?_
    by_cases hv : v.isTruthy = true
    · rw [if_pos hv]
      exact later_through hI h hallows (.loopBody hcondition hv)
        (later_round hI h hallows hcondition hv)
    · rw [if_neg hv]
      exact hI.refl _
  | loopBody hcondition hv =>
    refine later_after hcondition ?_
    rw [if_pos hv]
    exact later_round hI h hallows hcondition hv
  | again hcondition hv hbody =>
    refine later_after hcondition ?_
    rw [if_pos hv]
    exact later_after hbody (hI.refl _)
  | result => exact later_bind_quiet hI fun _ _ => rfl
  | firstStatement =>
    refine later_bind hI fun flow m₁ hfirst => ?_
    cases flow with
    | normal => exact later_through hI h hallows (.otherStatements hfirst) (hI.refl _)
    | returned v => exact hI.refl _
  | otherStatements hfirst => exact later_after hfirst (hI.refl _)
  | @body fuel _ _ _ line _ _ hinvoked harity hdepth =>
    have hdepth' := depth_of_invoked? hinvoked ▸ hdepth
    refine later_of_store_eq hI ?_
    show (ending (callAtFuel (fuel + 1) _ _ line _)).store = _
    rw [callAtFuel, ending_callWith hinvoked harity, store_ending_callFunction harity hdepth']
    rfl

/-- What a run ends with is later than what a part of it ends with. -/
theorem reaches_later {p q : Point} (hreaches : Reaches p q) (h : I.Ready p.machine)
    (hallows : I.Allows code p.machine p.task) : I.later q.ending.store p.ending.store := by
  induction hreaches with
  | refl => exact hI.refl _
  | step hreaches hstep ih =>
    obtain ⟨hready, hallows⟩ := reaches_ready hI hreaches h hallows
    exact hI.trans (enters_later hI hstep hready hallows) ih

end Invariant

end Quill
