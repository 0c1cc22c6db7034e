import Quill.Proofs.Evaluation.GuardedCalls
import Quill.Proofs.Evaluation.Raising

/-!
# Too many open calls

The fault of too many open calls has one source: it is no operator, variable or property that raises
it, nor a call that is refused for another reason, but a call that would be one too many
(`Point.Overflows`, `exists_overflows`).

`execution_contained` puts this together with what is restored behind every statement and
expression. That the points of a run have no more than `maxCallDepth` open calls is said twice: of
the points that `Reaches` knows of, and by runs in which bodies may do whatever they like where more
calls are open (`callBounded`), which makes no difference.
-/

namespace Quill

open Eval

/-- The point calls a function, a method or the initializer of a class with as many arguments as it
takes, while `maxCallDepth` calls are open. -/
def Point.Overflows (p : Point) (line : Nat) : Prop :=
  ∃ callee arguments f m', p.task = .call callee arguments line
    ∧ p.machine.invoked? callee = some (f, m') ∧ arguments.length = f.declaration.arity
    ∧ p.machine.depth = maxCallDepth

/-- The fault of too many open calls comes from a call that raises it. -/
theorem exists_overflows {p : Point} {line : Nat} (hdepth : p.machine.depth ≤ maxCallDepth)
    (h : p.Fails (.overflow line)) : ∃ q, Reaches p q ∧ q.Overflows line := by
  obtain ⟨q, hreach, hraises⟩ := Point.Fails.exists_raises h
  refine ⟨q, hreach, ?_⟩
  cases hraises with
  | @unary _ _ operator _ v _ hresult =>
    have hplain := isPlain_applyUnary operator v
    rw [hresult] at hplain
    exact absurd rfl hplain.1
  | @binary _ _ _ operator _ a b _ hresult =>
    have hplain := isPlain_applyBinary operator a b
    rw [hresult] at hplain
    exact absurd rfl hplain.1
  | overflow hinvoked harity hfull =>
    have hle := hreach.depth_le hdepth
    exact ⟨_, _, _, _, rfl, hinvoked, harity, Nat.le_antisymm hle hfull⟩

/-- Unless the fuel is used up, such a call raises the fault. -/
theorem Point.Overflows.fails {p : Point} {line : Nat} (h : p.Overflows line) :
    p.Fails (.overflow line) ∨ p.Fails .unfinished := by
  obtain ⟨fuel, task, m⟩ := p
  obtain ⟨callee, arguments, f, m', rfl, hinvoked, harity, hdepth⟩ := h
  cases fuel with
  | zero => exact .inr ⟨m, rfl⟩
  | succ fuel =>
    have hfull : maxCallDepth ≤ m'.depth :=
      Nat.le_of_eq ((depth_of_invoked? hinvoked).trans hdepth).symm
    refine .inl ((fails_callWith hinvoked harity line _).2 ?_)
    exact (fails_callFunction_full harity hfull).2 rfl

/-- At no point of the run are more than `maxCallDepth` calls open, and if the run comes to an end,
it fails for the number of calls exactly where it comes to a call that does. -/
structure Point.Bounded (p : Point) : Prop where
  depth_le : ∀ q, Reaches p q → q.machine.depth ≤ maxCallDepth ∧ q.ending.depth ≤ maxCallDepth
  overflow_iff : ¬p.Fails .unfinished →
    ∀ line, p.Fails (.overflow line) ↔ ∃ q, Reaches p q ∧ q.Overflows line

/-- A run that begins with no more open calls than may be is bounded. -/
theorem Point.bounded {p : Point} (hdepth : p.machine.depth ≤ maxCallDepth) : p.Bounded where
  depth_le q hreach := by
    have hq := hreach.depth_le hdepth
    exact ⟨hq, q.samePlace.depth ▸ hq⟩
  overflow_iff hfinished line := by
    constructor
    · exact exists_overflows hdepth
    · rintro ⟨q, hreach, hq⟩
      obtain hoverflow | hunfinished := hq.fails
      · exact hreach.fails hoverflow
      · exact absurd (hreach.fails hunfinished) hfinished

/-- Calls a value with so much fuel, but does something else in place of a body where more than
`maxCallDepth` calls are open. -/
def callBounded (beyond : List Stmt → Eval Flow) : (fuel : Nat) → Caller :=
  callGuarded (fun q => q.machine.depth ≤ maxCallDepth) beyond

/-- **Scopes and calls are restored, and calls are bounded.** From any state, however a statement or
an expression ends, the innermost scope and the number of open calls are what they were. If no more
calls than `maxCallDepth` are open at the start, no more ever are, and exactly a call with the right
number of arguments that would be one more is refused. In particular no body is run with more open
calls: whatever bodies did there, the statement and the expression would end as they do. -/
theorem execution_contained (fuel : Nat) (m : Machine) (s : Stmt) (e : Expr) :
    m.SamePlace (Eval.ending (executeAtFuel fuel s m))
      ∧ m.SamePlace (Eval.ending (evaluateAtFuel fuel e m))
      ∧ (m.depth ≤ maxCallDepth →
        Point.Bounded ⟨fuel, .statement s, m⟩ ∧ Point.Bounded ⟨fuel, .expression e, m⟩
          ∧ ∀ beyond, s.execute (callBounded beyond fuel) fuel m = executeAtFuel fuel s m
            ∧ e.evaluate (callBounded beyond fuel) m = evaluateAtFuel fuel e m) := by
  refine ⟨restores_executeAtFuel fuel s m, restores_evaluateAtFuel fuel e m, fun hdepth =>
    ⟨Point.bounded hdepth, Point.bounded hdepth, fun beyond => ⟨?_, ?_⟩⟩⟩
  · exact s.execute_guarded (fun q hreach => hreach.depth_le hdepth) beyond
  · exact e.evaluate_guarded (fun q hreach => hreach.depth_le hdepth) beyond

/-- A block that declares a function and calls it. -/
def callingBlock : Stmt :=
  .block [.function ⟨⟨"f", 1⟩, [], []⟩, .expression (.call (.reference ⟨"f", 1⟩) [] 1)]

/-- With all calls open, such a block fails for its call, also if the body of the function would
leave with another fault, and the scope of the block is left. -/
theorem execution_contained_full :
    ∃ q, Reaches
        ⟨1, .statement callingBlock, { Machine.ofSink .unlimited with depth := maxCallDepth }⟩ q
      ∧ q.Overflows 1
      ∧ ({ Machine.ofSink .unlimited with depth := maxCallDepth } : Machine).SamePlace
        (Eval.ending (executeAtFuel 1 callingBlock
          { Machine.ofSink .unlimited with depth := maxCallDepth }))
      ∧ Fails (callingBlock.execute (callBounded (fun _ => Eval.fail .notCallable 7) 1) 1)
        { Machine.ofSink .unlimited with depth := maxCallDepth } (.overflow 1) := by
  obtain ⟨hplace, -, hbounded⟩ := execution_contained 1
    { Machine.ofSink .unlimited with depth := maxCallDepth } callingBlock (.this 1)
  obtain ⟨hblock, -, hbeyond⟩ := hbounded (Nat.le_refl _)
  have hfails : Fails (executeAtFuel 1 callingBlock)
      { Machine.ofSink .unlimited with depth := maxCallDepth } (.overflow 1) :=
    ⟨_, rfl⟩
  have hfinished : ¬Fails (executeAtFuel 1 callingBlock)
      { Machine.ofSink .unlimited with depth := maxCallDepth } .unfinished := by
    rintro ⟨m', herror⟩
    obtain ⟨m'', hoverflow⟩ := hfails
    cases hoverflow.symm.trans herror
  obtain ⟨q, hreach, hq⟩ := (hblock.overflow_iff hfinished 1).1 hfails
  refine ⟨q, hreach, hq, hplace, ?_⟩
  obtain ⟨m', herror⟩ := hfails
  exact ⟨m', (hbeyond _).1.trans herror⟩

end Quill
