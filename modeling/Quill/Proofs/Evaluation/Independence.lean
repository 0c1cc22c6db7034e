import Quill.Proofs.Evaluation.Output
import Quill.Proofs.Evaluation.Sessions

/-!
# Runs are independent of what was run before

A machine goes on after a run, a statement or an expression, however it has ended. Scopes, functions,
classes and objects stay in its store, and the numbers of new ones depend on how many there are. A
program runs from a fresh global scope, from which nothing old can be reached, so its run and the run
on a new machine go together step by step: what one makes, the other makes too, only under another
number (`Pairing.appending`). `run_independent` is the result.
-/

namespace Quill

open Eval

/-- The states between the steps of a session on a sink that takes everything. Programs are run,
statements executed and expressions evaluated, each with any fuel and to any end. -/
inductive Machine.Session : Machine → Prop
  | start : Machine.Session (.ofSink .unlimited)
  | run {m} (h : Machine.Session m) (fuel : Nat) (program : Program) :
    Machine.Session (ending (runAtFuel fuel program m))
  | execute {m} (h : Machine.Session m) (fuel : Nat) (s : Stmt) :
    Machine.Session (ending (executeAtFuel fuel s m))
  | evaluate {m} (h : Machine.Session m) (fuel : Nat) (e : Expr) :
    Machine.Session (ending (evaluateAtFuel fuel e m))

/-- The sink takes everything and passes it on. -/
structure Sink.TakesAll (sink : Sink) : Prop where
  limit : sink.limit = none
  flushFails : sink.flushFails = false

/-- A sink that takes all still does when the action has ended. -/
theorem Eval.Appends.takesAll {α : Type} {action : Eval α} (h : Appends action) {m : Machine}
    (hm : m.sink.TakesAll) : (ending (action m)).sink.TakesAll := by
  obtain ⟨bytes, hsink⟩ := h m hm.limit
  rw [hsink]
  exact ⟨hm.limit, hm.flushFails⟩

/-- The sink still takes everything, whatever the session has done. -/
theorem Machine.Session.takesAll {m : Machine} (h : m.Session) : m.sink.TakesAll := by
  induction h with
  | start => exact ⟨rfl, rfl⟩
  | run _ fuel program ih =>
    rw [runAtFuel, ending_flushing]
    exact (compositional_appends.runTopLevel fuel program.declarations).takesAll ih
  | execute _ fuel s ih => exact (compositional_appends.executeAtFuel fuel s).takesAll ih
  | evaluate _ fuel e ih => exact (compositional_appends.evaluateAtFuel fuel e).takesAll ih

/-- The runs from two states with sinks that take everything. What was written since they began is
the same. -/
def Pairing.appending (m m' : Machine) : Pairing where
  line := id
  left := m.store.marks
  right := m'.store.marks
  sinks sink sink' := sink.TakesAll ∧ sink'.TakesAll ∧
    ∃ bytes, sink.written = m.sink.written ++ bytes ∧ sink'.written = m'.sink.written ++ bytes
  write := by
    rintro ⟨written, limit, flushFails⟩ ⟨written', limit', flushFails'⟩
      ⟨htakes, htakes', bytes, rfl, rfl⟩ more
    obtain rfl : limit = none := htakes.limit
    obtain rfl : limit' = none := htakes'.limit
    refine ⟨rfl, ⟨rfl, htakes.flushFails⟩, ⟨rfl, htakes'.flushFails⟩, bytes ++ more, ?_, ?_⟩
    · exact ByteArray.append_assoc
    · exact ByteArray.append_assoc
  flush := by
    rintro sink sink' ⟨htakes, htakes', -⟩
    rw [Sink.flushFault?, Sink.flushFault?, htakes.flushFails, htakes'.flushFails]

/-- On its own line a stop is what it is. -/
theorem Stop.mapLine_id (stop : Stop) : stop.mapLine id = stop := by
  cases stop <;> rfl

/-- On its own lines a program is what it is. -/
theorem Program.mapLines_id (program : Program) : program.mapLines id = program :=
  congrArg Program.mk (Stmt.listMapLines_id program.declarations)

/-- A sink that takes all is told by what it holds. -/
theorem Sink.TakesAll.eq {sink : Sink} (h : sink.TakesAll) : sink = ⟨sink.written, none, false⟩ := by
  obtain ⟨written, limit, flushFails⟩ := sink
  obtain rfl : limit = none := h.limit
  obtain rfl : flushFails = false := h.flushFails
  rfl

/-- From any two states with sinks that take everything, a program appends the same and ends in the
same way. -/
theorem outcome_appending {m m' : Machine} (hm : m.sink.TakesAll) (hm' : m'.sink.TakesAll)
    (fuel : Nat) (program : Program) :
    ∃ stop? bytes,
      outcome (runAtFuel fuel program m) = (stop?, ⟨m.sink.written ++ bytes, none, false⟩) ∧
        outcome (runAtFuel fuel program m') = (stop?, ⟨m'.sink.written ++ bytes, none, false⟩) := by
  have hstart : (Pairing.appending m m').sinks m.sink m'.sink :=
    ⟨hm, hm', .empty, ByteArray.append_empty.symm, ByteArray.append_empty.symm⟩
  have hruns := pairs_runAtFuel (P := .appending m m') rfl rfl hstart fuel program
  rw [show (Pairing.appending m m').line = id from rfl, program.mapLines_id] at hruns
  generalize runAtFuel fuel program m = result at hruns
  generalize runAtFuel fuel program m' = result' at hruns
  cases hruns with
  | @ok _ _ n n' _ hn =>
    obtain ⟨htakes, htakes', bytes, hbytes, hbytes'⟩ := hn.sink
    refine ⟨none, bytes, ?_, ?_⟩
    · rw [← hbytes, ← htakes.eq]
      rfl
    · rw [← hbytes', ← htakes'.eq]
      rfl
  | @error stop n n' hn =>
    obtain ⟨htakes, htakes', bytes, hbytes, hbytes'⟩ := hn.sink
    refine ⟨some stop, bytes, ?_, ?_⟩
    · rw [← hbytes, ← htakes.eq]
      rfl
    · rw [← hbytes', ← htakes'.eq, show (Pairing.appending m m').line = id from rfl,
        stop.mapLine_id]
      rfl

/-- **Runs do not interfere.** In every state of a session, a program appends just the bytes that it
prints on a new machine, and ends as it ends there. -/
theorem run_independent {m : Machine} (h : m.Session) (fuel : Nat) (program : Program) :
    ∃ stop? bytes,
      outcome (runAtFuel fuel program (.ofSink .unlimited)) = (stop?, ⟨bytes, none, false⟩) ∧
        outcome (runAtFuel fuel program m) = (stop?, ⟨m.sink.written ++ bytes, none, false⟩) := by
  obtain ⟨stop?, bytes, hnew, hm⟩ :=
    outcome_appending (m := .ofSink .unlimited) ⟨rfl, rfl⟩ h.takesAll fuel program
  refine ⟨stop?, bytes, ?_, hm⟩
  rw [hnew]
  exact congrArg (fun written => (stop?, Sink.mk written none false)) ByteArray.empty_append

/-- A program whose run ends with a fault, run once more after that and another fault. -/
theorem run_independent_afterFaults :
    ∃ m : Machine, m.Session ∧ m.sink.written = "ab\ncd\n".toUTF8 ∧
      outcome (runAtFuel 1 faultAfterTwoLines m) =
        (some (.fault ⟨.undefinedVariable "x", 3⟩), ⟨"ab\ncd\nab\ncd\n".toUTF8, none, false⟩) := by
  have hsession := (Machine.Session.start.run 1 faultAfterTwoLines).evaluate 1 (.this 1)
  have hwritten : (ending (evaluateAtFuel 1 (.this 1)
      (ending (runAtFuel 1 faultAfterTwoLines (.ofSink .unlimited))))).sink.written =
        "ab\ncd\n".toUTF8 := rfl
  have hprints : outcome (runAtFuel 1 faultAfterTwoLines (.ofSink .unlimited)) =
      (some (.fault ⟨.undefinedVariable "x", 3⟩), ⟨"ab\ncd\n".toUTF8, none, false⟩) := rfl
  obtain ⟨stop?, bytes, hnew, hagain⟩ := run_independent hsession 1 faultAfterTwoLines
  cases hprints.symm.trans hnew
  refine ⟨_, hsession, hwritten, ?_⟩
  rw [hagain, hwritten]
  rfl

end Quill
