import Quill.Proofs.Evaluation.Actions
import Quill.Proofs.Scoping.Events

/-!
# Every action comes back to where it started

Blocks and calls run in a scope of their own, and calls count as open while they run. Both are
undone however a part ends: with a value, by leaving the function, for a fault at any depth, because
printing fails, or because the fuel is used up. So the innermost scope and the number of open calls
are the same behind every expression and statement as before it (`restores_evaluateAtFuel`,
`restores_executeAtFuel`).

`Restores` is kept by putting actions together (`Restores.bind`), and what opens a scope or a call
closes it again (`restores_inScope`, `restores_deeper`). So it holds of whatever programs do
(`compositional_restores`).
-/

namespace Quill

/-- The innermost scope and the number of open calls are the same in both states. -/
structure Machine.SamePlace (m m' : Machine) : Prop where
  scope : m'.scope = m.scope
  depth : m'.depth = m.depth

namespace Machine.SamePlace

variable {m m' m'' : Machine}

/-- A state is in the same place as itself. -/
theorem refl (m : Machine) : m.SamePlace m := ⟨rfl, rfl⟩

/-- What is in the same place as a state in the same place is in the same place. -/
theorem trans (h : m.SamePlace m') (h' : m'.SamePlace m'') : m.SamePlace m'' :=
  ⟨h'.scope.trans h.scope, h'.depth.trans h.depth⟩

end Machine.SamePlace

namespace Eval

variable {α β : Type}

/-- The state in which an action has ended, with a value or without. -/
def ending : EStateM.Result Stop Machine α → Machine
  | .ok _ m => m
  | .error _ m => m

@[simp] theorem ending_ok (a : α) (m : Machine) : ending (.ok a m) = m := rfl

@[simp] theorem ending_error (stop : Stop) (m : Machine) :
    ending (.error stop m : EStateM.Result Stop Machine α) = m := rfl

/-- However the action ends, it ends in the scope and with the open calls it has started with. -/
def Restores (action : Eval α) : Prop :=
  ∀ m : Machine, m.SamePlace (ending (action m))

/-- An action that restores its place and has a value has it in the same place. -/
theorem Restores.of_ok {action : Eval α} (h : Restores action) {m m' : Machine} {a : α}
    (hok : action m = .ok a m') : m.SamePlace m' := by
  have hend := h m
  rwa [hok] at hend

/-! ## Actions -/

/-- A value is had in place. -/
theorem restores_pure (a : α) : Restores (pure a) := fun m => .refl m

/-- Stopping is in place. -/
theorem restores_throw (stop : Stop) : Restores (throw stop : Eval α) := fun m => .refl m

/-- A sequence restores its place if its parts do. -/
theorem Restores.bind {x : Eval α} {f : α → Eval β} (hx : Restores x) (hf : ∀ a, Restores (f a)) :
    Restores (x >>= f) := by
  intro m
  have hfirst := hx m
  cases haction : x m with
  | error stop m' =>
    rw [haction] at hfirst
    rw [bind_eq_of_error haction]
    exact hfirst
  | ok a m' =>
    rw [haction] at hfirst
    rw [bind_eq_of_ok haction]
    exact hfirst.trans (hf a m')

/-- Changing the store leaves the place alone. -/
theorem restores_withStore (f : Store → α × Store) : Restores (withStore f) :=
  fun _ => ⟨rfl, rfl⟩

/-- Printing leaves the place alone. -/
theorem restores_printLine (v : Value) : Restores (printLine v) := by
  intro m
  obtain ⟨sink, hok | ⟨fault, herror⟩⟩ := printLine_eq v m
  · rw [hok]
    exact ⟨rfl, rfl⟩
  · rw [herror]
    exact ⟨rfl, rfl⟩

/-- The scope of the action is left for the one before, whatever the action has done to it. -/
theorem restores_inScope {action : Eval α} (scope : ScopeId) (h : Restores action) :
    Restores (inScope scope action) := by
  intro m
  have haction := h { m with scope := scope }
  unfold inScope
  dsimp only
  cases hrun : action { m with scope := scope } with
  | ok a m' =>
    rw [hrun] at haction
    exact ⟨rfl, haction.depth⟩
  | error stop m' =>
    rw [hrun] at haction
    exact ⟨rfl, haction.depth⟩

/-- The call that the action is inside of is closed again. -/
theorem restores_deeper {action : Eval α} (h : Restores action) : Restores (deeper action) := by
  intro m
  have haction := h { m with depth := m.depth + 1 }
  unfold deeper
  cases hrun : action { m with depth := m.depth + 1 } with
  | ok a m' =>
    rw [hrun] at haction
    exact ⟨haction.scope, Nat.sub_eq_of_eq_add haction.depth⟩
  | error stop m' =>
    rw [hrun] at haction
    exact ⟨haction.scope, Nat.sub_eq_of_eq_add haction.depth⟩

/-! ## Programs -/

/-- Every action of a program comes back to where it started. -/
theorem compositional_restores : Compositional @Restores where
  pure := restores_pure
  throw := restores_throw
  bind := Restores.bind
  look _ hf := fun m => hf m m
  withStore := restores_withStore
  printLine := restores_printLine
  inScope := restores_inScope
  deeper := restores_deeper

end Eval

open Eval

/-- Calling a value restores the place, whatever it runs. -/
theorem restores_callAtFuel (fuel : Nat) (callee : Value) (arguments : List Value) (line : Nat) :
    Restores (callAtFuel fuel callee arguments line) :=
  compositional_restores.callAtFuel fuel callee arguments line

/-- Evaluating an expression restores the place. -/
theorem restores_evaluateAtFuel (fuel : Nat) (e : Expr) : Restores (evaluateAtFuel fuel e) :=
  compositional_restores.evaluateAtFuel fuel e

/-- Evaluating expressions restores the place. -/
theorem restores_evaluateAll (fuel : Nat) (es : List Expr) :
    Restores (Expr.evaluateAll (callAtFuel fuel) es) :=
  compositional_restores.expressions (restores_callAtFuel fuel) es

/-- Executing a statement restores the place. -/
theorem restores_executeAtFuel (fuel : Nat) (s : Stmt) : Restores (executeAtFuel fuel s) :=
  compositional_restores.executeAtFuel fuel s

end Quill
