import Quill.Proofs.Evaluation.Actions
import Quill.Proofs.Evaluation.PairedRuns
import Quill.Proofs.Evaluation.Restoration

/-!
# Output on bounded sinks

What a run does depends on the sink only where the sink runs out of room. On a sink without limit
every action appends to what was written before (`Appends`). On a sink with a limit it does the
same as long as there is room, and otherwise it stops there: the sink has been filled to the limit,
and nothing follows (`Bounds`). Both are kept by putting actions together (`compositional_bounds`),
wherever in the midst of a call, a loop or an argument the sink gets full.

For whole runs this is `output_bounded`.
-/

namespace Quill

/-! ## Sinks and limits -/

/-- So many bytes are within the limit, if there is one. -/
def Sink.Fits (limit : Option Nat) (size : Nat) : Prop := ∀ l, limit = some l → size ≤ l

/-- Where a number of bytes fits, fewer do. -/
theorem Sink.Fits.of_le {limit : Option Nat} {n k : Nat} (h : Fits limit k) (hle : n ≤ k) :
    Fits limit n :=
  fun l hl => Nat.le_trans hle (h l hl)

/-- A number of bytes fits, or the limit is below it. -/
theorem Sink.fits_or_beyond (limit : Option Nat) (n : Nat) :
    Fits limit n ∨ ∃ l, limit = some l ∧ l < n := by
  cases limit with
  | none => exact .inl fun l hl => by cases hl
  | some l =>
    rcases Nat.lt_or_ge l n with hlt | hge
    · exact .inr ⟨l, rfl, hlt⟩
    · refine .inl fun l' hl' => ?_
      cases hl'
      exact hge

/-- The machine on a sink with another limit, that passes on what was written or does not. -/
def Machine.bounded (m : Machine) (limit : Option Nat) (fails : Bool) : Machine :=
  { m with sink := ⟨m.sink.written, limit, fails⟩ }

namespace Eval

variable {α β : Type} {limit : Option Nat} {fails : Bool}

/-- The result on a sink with another limit. -/
def boundedResult (limit : Option Nat) (fails : Bool) :
    EStateM.Result Stop Machine α → EStateM.Result Stop Machine α
  | .ok a m => .ok a (m.bounded limit fails)
  | .error stop m => .error stop (m.bounded limit fails)

/-- On a sink without limit, the action appends to what was written and leaves the sink as it is
otherwise. -/
def Appends (action : Eval α) : Prop :=
  ∀ m : Machine, m.sink.limit = none →
    ∃ bytes, (ending (action m)).sink = { m.sink with written := m.sink.written ++ bytes }

/-- On a sink with a limit the action does what it does without one, if there is room for it.
Otherwise it stops when the sink is full, with as much written as there is room for. -/
def Bounds (limit : Option Nat) (fails : Bool) (action : Eval α) : Prop :=
  ∀ m : Machine, m.sink.limit = none → Sink.Fits limit m.sink.written.size →
    (Sink.Fits limit (ending (action m)).sink.written.size →
      action (m.bounded limit fails) = boundedResult limit fails (action m)) ∧
    ∀ l, limit = some l → l < (ending (action m)).sink.written.size →
      ∃ m', action (m.bounded limit fails) = .error (.sink .full) m' ∧
        m'.sink = ⟨(ending (action m)).sink.written.extract 0 l, limit, fails⟩

/-- The action in another place, and the way back from it. -/
def elsewhere (go : Machine → Machine) (back : Machine → Machine → Machine) (action : Eval α) :
    Eval α := fun m =>
  match action (go m) with
  | .ok a m' => .ok a (back m m')
  | .error stop m' => .error stop (back m m')

/-- An action that runs elsewhere ends where it is brought back to. -/
theorem ending_elsewhere (go : Machine → Machine) (back : Machine → Machine → Machine)
    (action : Eval α) (m : Machine) :
    ending (elsewhere go back action m) = back m (ending (action (go m))) := by
  unfold elsewhere
  cases action (go m) with
  | ok a m' => rfl
  | error stop m' => rfl

/-! ## Appending -/

/-- An action that leaves the sink alone adds nothing to it. -/
theorem Appends.of_sink_eq {action : Eval α} (h : ∀ m, (ending (action m)).sink = m.sink) :
    Appends action :=
  fun m _ => ⟨.empty, by rw [h m, ByteArray.append_empty]⟩

/-- A sink without a limit stays one. -/
theorem Appends.limit_eq {action : Eval α} (h : Appends action) {m : Machine}
    (hlimit : m.sink.limit = none) : (ending (action m)).sink.limit = none := by
  obtain ⟨bytes, hsink⟩ := h m hlimit
  rw [hsink]
  exact hlimit

/-- Running elsewhere adds what is added there, if going there and coming back leave the sink alone.
-/
theorem Appends.elsewhere {action : Eval α} (go : Machine → Machine)
    (back : Machine → Machine → Machine) (h : Appends action) (hgo : ∀ m, (go m).sink = m.sink)
    (hback : ∀ m m', (back m m').sink = m'.sink) : Appends (elsewhere go back action) := by
  intro m hlimit
  obtain ⟨bytes, hsink⟩ := h (go m) (hgo m ▸ hlimit)
  refine ⟨bytes, ?_⟩
  rw [ending_elsewhere, hback, hsink, hgo]

/-- Everything that a program does adds to the sink, or leaves it alone. -/
theorem compositional_appends : Compositional @Appends where
  pure _ := .of_sink_eq fun _ => rfl
  throw _ := .of_sink_eq fun _ => rfl
  bind := by
    intro α β x f hx hf m hlimit
    obtain ⟨first, hfirst⟩ := hx m hlimit
    have hlimit' := hx.limit_eq hlimit
    cases haction : x m with
    | error stop m' =>
      rw [haction] at hfirst
      rw [bind_eq_of_error haction]
      exact ⟨first, hfirst⟩
    | ok a m' =>
      rw [haction] at hfirst hlimit'
      obtain ⟨second, hsecond⟩ := hf a m' hlimit'
      rw [bind_eq_of_ok haction]
      refine ⟨first ++ second, ?_⟩
      rw [ending_ok] at hfirst
      rw [hsecond, hfirst, ByteArray.append_assoc]
  look _ hf := fun m => hf m m
  withStore _ := .of_sink_eq fun _ => rfl
  printLine v := by
    intro m hlimit
    refine ⟨(m.store.display v ++ "\n").toUTF8, ?_⟩
    simp only [Eval.printLine, Sink.write, hlimit, ending_ok]
  inScope scope h := h.elsewhere (fun m => { m with scope := scope })
    (fun m m' => { m' with scope := m.scope }) (fun _ => rfl) fun _ _ => rfl
  deeper h := h.elsewhere (fun m => { m with depth := m.depth + 1 })
    (fun _ m' => { m' with depth := m'.depth - 1 }) (fun _ => rfl) fun _ _ => rfl

/-! ## Bounds -/

/-- An action that does not look at the sink and leaves it as it is. -/
theorem Bounds.of_blind {action : Eval α}
    (hblind : ∀ m : Machine, m.sink.limit = none →
      action (m.bounded limit fails) = boundedResult limit fails (action m))
    (hsink : ∀ m, (ending (action m)).sink = m.sink) : Bounds limit fails action := by
  intro m hlimit hfits
  refine ⟨fun _ => hblind m hlimit, fun l hl hlt => ?_⟩
  rw [hsink m] at hlt
  exact absurd (hfits l hl) (Nat.not_le.2 hlt)

/-- What has been written so far is not written again: it is within the limit, or the sink has
become full before. -/
theorem Bounds.bind {x : Eval α} {f : α → Eval β} (hx : Bounds limit fails x) (hxs : Appends x)
    (hf : ∀ a, Bounds limit fails (f a)) (hfs : ∀ a, Appends (f a)) :
    Bounds limit fails (x >>= f) := by
  intro m hlimit hfits
  obtain ⟨hwithin, hbeyond⟩ := hx m hlimit hfits
  have hlimit' := hxs.limit_eq hlimit
  cases haction : x m with
  | error stop m' =>
    rw [haction] at hwithin hbeyond
    rw [bind_eq_of_error haction]
    refine ⟨fun hroom => ?_, fun l hl hlt => ?_⟩
    · exact bind_eq_of_error (hwithin hroom)
    · obtain ⟨n, herror, hsink⟩ := hbeyond l hl hlt
      exact ⟨n, bind_eq_of_error herror, hsink⟩
  | ok a m' =>
    rw [haction] at hwithin hbeyond hlimit'
    rw [ending_ok] at hwithin hbeyond hlimit'
    rw [bind_eq_of_ok haction]
    obtain ⟨bytes, hrest⟩ := hfs a m' hlimit'
    have hle : m'.sink.written.size ≤ (ending (f a m')).sink.written.size := by
      rw [hrest, ByteArray.size_append]
      exact Nat.le_add_right _ _
    refine ⟨fun hroom => ?_, fun l hl hlt => ?_⟩
    · have hroom' : Sink.Fits limit m'.sink.written.size := hroom.of_le hle
      rw [bind_eq_of_ok (hwithin hroom')]
      exact (hf a m' hlimit' hroom').1 hroom
    · rcases Sink.fits_or_beyond limit m'.sink.written.size with hroom' | ⟨l', hl', hfull⟩
      · rw [bind_eq_of_ok (hwithin hroom')]
        exact (hf a m' hlimit' hroom').2 l hl hlt
      · obtain rfl : l' = l := Option.some.inj (hl'.symm.trans hl)
        obtain ⟨n, herror, hsink⟩ := hbeyond l' hl hfull
        refine ⟨n, bind_eq_of_error herror, ?_⟩
        have hsame : (m'.sink.written ++ bytes).extract 0 l' = m'.sink.written.extract 0 l' := by
          rw [ByteArray.extract_append, Nat.zero_sub, Nat.sub_eq_zero_of_le (Nat.le_of_lt hfull),
            ByteArray.extract_same, ByteArray.append_empty]
        rw [hsink, hrest]
        simp only [hsame]

/-- Printing to a sink with a limit is printing up to the limit. -/
theorem bounds_printLine (v : Value) : Bounds limit fails (Eval.printLine v) := by
  intro m hlimit hfits
  obtain ⟨store, scope, depth, written, unlimited, flushFails⟩ := m
  obtain rfl : unlimited = none := hlimit
  have hline : Eval.printLine v ⟨store, scope, depth, written, none, flushFails⟩ =
      .ok () ⟨store, scope, depth, written ++ (store.display v ++ "\n").toUTF8, none,
        flushFails⟩ := rfl
  rw [hline, ending_ok]
  generalize hbytes : (store.display v ++ "\n").toUTF8 = bytes
  cases limit with
  | none =>
    refine ⟨fun _ => ?_, fun l hl => by cases hl⟩
    simp only [Machine.bounded, Eval.printLine, Sink.write, boundedResult, hbytes]
  | some l =>
    have hstart : written.size ≤ l := hfits l rfl
    have hsize : (written ++ bytes).size = written.size + bytes.size := ByteArray.size_append
    refine ⟨fun hroom => ?_, fun l' hl' hlt => ?_⟩
    · have hle : bytes.size ≤ l - written.size := by
        have hall : (written ++ bytes).size ≤ l := hroom l rfl
        omega
      simp only [Machine.bounded, Eval.printLine, Sink.write, boundedResult, hbytes, if_pos hle]
    · cases hl'
      have hgt : ¬bytes.size ≤ l - written.size := by
        have hall : l < (written ++ bytes).size := hlt
        omega
      have hcut : (written ++ bytes).extract 0 l = written ++ bytes.extract 0 (l - written.size) := by
        have hfirst : written.extract 0 l = written := by
          rw [← Nat.max_eq_left hstart, ByteArray.extract_zero_max_size]
        rw [ByteArray.extract_append, Nat.zero_sub, hfirst]
      refine ⟨⟨store, scope, depth, written ++ bytes.extract 0 (l - written.size), some l, fails⟩,
        ?_, ?_⟩
      · simp only [Machine.bounded, Eval.printLine, Sink.write, hbytes, if_neg hgt]
      · rw [hcut]

/-- Running elsewhere is bounded as the action is, if going there and coming back do not look at the
sink. -/
theorem Bounds.elsewhere {action : Eval α} (go : Machine → Machine)
    (back : Machine → Machine → Machine) (h : Bounds limit fails action)
    (hgo : ∀ m, (go m).sink = m.sink) (hback : ∀ m m', (back m m').sink = m'.sink)
    (hgo' : ∀ m, go (m.bounded limit fails) = (go m).bounded limit fails)
    (hback' : ∀ m m', back (m.bounded limit fails) (m'.bounded limit fails) =
      (back m m').bounded limit fails) :
    Bounds limit fails (elsewhere go back action) := by
  intro m hlimit hfits
  obtain ⟨hwithin, hbeyond⟩ := h (go m) (hgo m ▸ hlimit) (hgo m ▸ hfits)
  rw [ending_elsewhere, hback]
  refine ⟨fun hroom => ?_, fun l hl hlt => ?_⟩
  · unfold Eval.elsewhere
    rw [hgo', hwithin hroom]
    cases action (go m) with
    | ok a m' => exact congrArg (EStateM.Result.ok a) (hback' m m')
    | error stop m' => exact congrArg (EStateM.Result.error stop) (hback' m m')
  · obtain ⟨n, herror, hsink⟩ := hbeyond l hl hlt
    unfold Eval.elsewhere
    rw [hgo', herror]
    exact ⟨_, rfl, (hback _ n).trans hsink⟩

/-- Every action of a program keeps to the limit of its sink. -/
theorem compositional_bounds (limit : Option Nat) (fails : Bool) :
    Compositional fun action => Appends action ∧ Bounds limit fails action where
  pure a := ⟨compositional_appends.pure a, .of_blind (fun _ _ => rfl) fun _ => rfl⟩
  throw stop := ⟨compositional_appends.throw stop, .of_blind (fun _ _ => rfl) fun _ => rfl⟩
  bind hx hf :=
    ⟨compositional_appends.bind hx.1 fun a => (hf a).1,
      hx.2.bind hx.1 (fun a => (hf a).2) fun a => (hf a).1⟩
  look := by
    intro α f hblind hf
    refine ⟨compositional_appends.look hblind fun m => (hf m).1, fun m => ?_⟩
    have hlook : (get >>= f) (m.bounded limit fails) = f m (m.bounded limit fails) :=
      congrFun (hblind m.store m.scope m.depth ⟨m.sink.written, limit, fails⟩ m.sink) _
    rw [hlook]
    exact (hf m).2 m
  withStore f := ⟨compositional_appends.withStore f, .of_blind (fun _ _ => rfl) fun _ => rfl⟩
  printLine v := ⟨compositional_appends.printLine v, bounds_printLine v⟩
  inScope scope h := by
    refine ⟨compositional_appends.inScope scope h.1, ?_⟩
    exact h.2.elsewhere (fun m => { m with scope := scope })
      (fun m m' => { m' with scope := m.scope }) (fun _ => rfl) (fun _ _ => rfl)
      (fun _ => rfl) fun _ _ => rfl
  deeper h := by
    refine ⟨compositional_appends.deeper h.1, ?_⟩
    exact h.2.elsewhere (fun m => { m with depth := m.depth + 1 })
      (fun _ m' => { m' with depth := m'.depth - 1 }) (fun _ => rfl) (fun _ _ => rfl)
      (fun _ => rfl) fun _ _ => rfl

/-! ## Outcomes -/

/-- The sink of an outcome is the one in which the action has ended. -/
theorem outcome_snd (result : EStateM.Result Stop Machine α) :
    (outcome result).2 = (ending result).sink := by
  cases result <;> rfl

/-- A limit that is not reached changes nothing about the outcome but the limit itself. -/
theorem outcome_boundedResult {result : EStateM.Result Stop Machine α} {stop? : Option Stop}
    {sink : Sink} (h : outcome result = (stop?, sink)) :
    outcome (boundedResult limit fails result) = (stop?, ⟨sink.written, limit, fails⟩) := by
  cases result with
  | ok a m =>
    cases h
    rfl
  | error stop m =>
    cases h
    rfl

section

variable {action : Eval α} {m : Machine} {stop? : Option Stop} {sink : Sink}

/-- Passing on what was written changes nothing if it succeeds. -/
theorem outcome_flushing_of_passes (h : outcome (action m) = (stop?, sink))
    (hpasses : sink.flushFails = false) : outcome (flushing action m) = (stop?, sink) := by
  unfold flushing
  cases haction : action m with
  | ok a m' =>
    rw [haction] at h
    cases h
    simp only [Sink.flushFault?, hpasses, Bool.false_eq_true, if_false]
    rfl
  | error stop m' =>
    rw [haction] at h
    cases h
    cases stop with
    | unfinished => rfl
    | _ =>
      simp only [Sink.flushFault?, hpasses, Bool.false_eq_true, if_false]
      rfl

/-- Otherwise that it fails is what is reported, however the action has ended. -/
theorem outcome_flushing_of_fails (h : outcome (action m) = (stop?, sink))
    (hfinished : stop? ≠ some .unfinished) (hfails : sink.flushFails = true) :
    outcome (flushing action m) = (some (.sink .flushFailed), sink) := by
  unfold flushing
  cases haction : action m with
  | ok a m' =>
    rw [haction] at h
    cases h
    simp only [Sink.flushFault?, hfails, if_true]
    rfl
  | error stop m' =>
    rw [haction] at h
    cases h
    cases stop with
    | unfinished => exact absurd rfl hfinished
    | _ =>
      simp only [Sink.flushFault?, hfails, if_true]
      rfl

/-- The outcome of an action that keeps to the limits of sinks, from that on a sink without limit. -/
theorem Bounds.outcome (hbounds : Bounds limit fails action) (hlimit : m.sink.limit = none)
    (hstart : Sink.Fits limit m.sink.written.size) (h : outcome (action m) = (stop?, sink)) :
    (Sink.Fits limit sink.written.size →
      Eval.outcome (action (m.bounded limit fails)) = (stop?, ⟨sink.written, limit, fails⟩)) ∧
    ∀ l, limit = some l → l < sink.written.size →
      Eval.outcome (action (m.bounded limit fails)) =
        (some (.sink .full), ⟨sink.written.extract 0 l, limit, fails⟩) := by
  obtain ⟨hwithin, hbeyond⟩ := hbounds m hlimit hstart
  have hsink : (ending (action m)).sink = sink := by rw [← outcome_snd, h]
  rw [hsink] at hwithin hbeyond
  refine ⟨fun hroom => ?_, fun l hl hlt => ?_⟩
  · rw [hwithin hroom]
    exact outcome_boundedResult h
  · obtain ⟨n, herror, hfull⟩ := hbeyond l hl hlt
    rw [herror, ← hfull]
    rfl

end

end Eval

open Eval

section

variable {program : Program} {fuel : Nat} {m : Machine} {stop? : Option Stop} {bytes : ByteArray}

/-- On a sink without limit, passing on what was printed changes nothing. -/
theorem outcome_runTopLevel_of_run
    (hrun : outcome (runAtFuel fuel program { m with sink := .unlimited }) =
      (stop?, ⟨bytes, none, false⟩)) :
    outcome (runTopLevel fuel program.declarations
      ({ m with sink := .unlimited } : Machine).restart) = (stop?, ⟨bytes, none, false⟩) := by
  obtain ⟨printed, hprinted⟩ := compositional_appends.runTopLevel fuel program.declarations
    ({ m with sink := .unlimited } : Machine).restart rfl
  rw [← outcome_snd] at hprinted
  rw [← hrun]
  exact (outcome_flushing_of_passes rfl (congrArg Sink.flushFails hprinted)).symm

/-- The outcome of the top level with a limit, by the outcome of the run without one. -/
theorem outcome_runTopLevel_bounded (limit : Option Nat) (fails : Bool)
    (h : outcome (runTopLevel fuel program.declarations
      ({ m with sink := .unlimited } : Machine).restart) = (stop?, ⟨bytes, none, false⟩)) :
    (Sink.Fits limit bytes.size →
      outcome (runTopLevel fuel program.declarations
        ({ m with sink := ⟨.empty, limit, fails⟩ } : Machine).restart) =
          (stop?, ⟨bytes, limit, fails⟩)) ∧
    ∀ l, limit = some l → l < bytes.size →
      outcome (runTopLevel fuel program.declarations
        ({ m with sink := ⟨.empty, limit, fails⟩ } : Machine).restart) =
          (some (.sink .full), ⟨bytes.extract 0 l, limit, fails⟩) :=
  ((compositional_bounds limit fails).runTopLevel fuel program.declarations).2.outcome rfl
    (fun _ _ => Nat.zero_le _) h

end

/-- **Output on bounded sinks.** Take a run that finishes on a sink without limit. On a sink with a
limit it prints the same and ends in the same way if there is room for all it prints; otherwise the
sink takes as many bytes as there is room for, and that it is full is how the run ends. If what was
printed cannot be passed on, then this is how the run ends, and as much is printed as otherwise. -/
theorem output_bounded (program : Program) (fuel : Nat) (m : Machine) {stop? : Option Stop}
    {bytes : ByteArray}
    (hrun : outcome (runAtFuel fuel program { m with sink := .unlimited }) =
      (stop?, ⟨bytes, none, false⟩))
    (hfinished : stop? ≠ some .unfinished) :
    (∀ limit, bytes.size ≤ limit →
      outcome (runAtFuel fuel program { m with sink := ⟨.empty, some limit, false⟩ }) =
        (stop?, ⟨bytes, some limit, false⟩)) ∧
    (∀ limit, limit < bytes.size →
      outcome (runAtFuel fuel program { m with sink := ⟨.empty, some limit, false⟩ }) =
        (some (.sink .full), ⟨bytes.extract 0 limit, some limit, false⟩)) ∧
    ∀ limit : Option Nat,
      outcome (runAtFuel fuel program { m with sink := ⟨.empty, limit, true⟩ }) =
        (some (.sink .flushFailed),
          ⟨(outcome (runAtFuel fuel program { m with sink := ⟨.empty, limit, false⟩ })).2.written,
            limit, true⟩) := by
  have htop := outcome_runTopLevel_of_run hrun
  have hbounded := fun limit fails => outcome_runTopLevel_bounded limit fails htop
  refine ⟨fun limit hle => ?_, fun limit hlt => ?_, fun limit => ?_⟩
  · have hroom : Sink.Fits (some limit) bytes.size := fun l hl => Option.some.inj hl ▸ hle
    exact outcome_flushing_of_passes ((hbounded _ false).1 hroom) rfl
  · exact outcome_flushing_of_passes ((hbounded _ false).2 limit rfl hlt) rfl
  · rcases Sink.fits_or_beyond limit bytes.size with hroom | ⟨l, hl, hlt⟩
    · have hpasses := outcome_flushing_of_passes ((hbounded limit false).1 hroom) rfl
      have hfails := outcome_flushing_of_fails ((hbounded limit true).1 hroom) hfinished rfl
      exact hfails.trans (congrArg (fun sink => (_, Sink.mk sink.2.written limit true)) hpasses.symm)
    · have hpasses := outcome_flushing_of_passes ((hbounded limit false).2 l hl hlt) rfl
      have hfails := outcome_flushing_of_fails ((hbounded limit true).2 l hl hlt) (by simp) rfl
      exact hfails.trans (congrArg (fun sink => (_, Sink.mk sink.2.written limit true)) hpasses.symm)

/-- A function that prints two lines, a call of it, and a fault at the end. -/
def faultAfterTwoLines : Program :=
  ⟨[.function ⟨⟨"f", 1⟩, [], [.print (.literal (.string "ab") 1), .print (.literal (.string "cd") 1)]⟩,
    .expression (.call (.reference ⟨"f", 1⟩) [] 2), .expression (.reference ⟨"x", 3⟩)]⟩

/-- The fault is reported on a sink for both lines. On a sink for fewer bytes the call does not come
to its end, and if nothing can be passed on, that is what is reported. -/
theorem output_bounded_faultAfterTwoLines :
    outcome (runAtFuel 1 faultAfterTwoLines (.ofSink ⟨.empty, some 6, false⟩)) =
        (some (.fault ⟨.undefinedVariable "x", 3⟩), ⟨"ab\ncd\n".toUTF8, some 6, false⟩) ∧
      outcome (runAtFuel 1 faultAfterTwoLines (.ofSink ⟨.empty, some 4, false⟩)) =
        (some (.sink .full), ⟨"ab\nc".toUTF8, some 4, false⟩) ∧
      (outcome (runAtFuel 1 faultAfterTwoLines (.ofSink ⟨.empty, some 4, true⟩))).1 =
        some (.sink .flushFailed) := by
  have hrun : outcome (runAtFuel 1 faultAfterTwoLines (.ofSink .unlimited)) =
      (some (.fault ⟨.undefinedVariable "x", 3⟩), ⟨"ab\ncd\n".toUTF8, none, false⟩) := rfl
  obtain ⟨hwithin, hbeyond, hfails⟩ :=
    output_bounded faultAfterTwoLines 1 (.ofSink .unlimited) hrun (by simp)
  have hcut : "ab\ncd\n".toUTF8.extract 0 4 = "ab\nc".toUTF8 := by decide
  refine ⟨hwithin 6 (by decide), ?_, congrArg Prod.fst (hfails (some 4))⟩
  rw [← hcut]
  exact hbeyond 4 (by decide)

end Quill
