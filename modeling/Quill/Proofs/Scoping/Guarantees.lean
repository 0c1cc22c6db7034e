import Quill.Proofs.Grammar.Soundness
import Quill.Proofs.Scoping.Execution
import Quill.Proofs.Scoping.Numbering
import Quill.Proofs.Scoping.PairedEvents

/-!
# What programs without scope issues are safe from

For programs that were parsed and have no scope issues, whatever the state before the run and
however much fuel there is:

* `undefined_only_at_methods`: a run fails for an undefined variable only where a method body names
  a method of a class around it as if it was a variable; and all of the top level is executed unless
  the run stops.
* `overwrites_only_late`: an assignment overwrites a function or class only if it stands in a
  function around which the name is declared further on. `late_declaration_overwritten` shows that
  this happens.

Both speak of one use of a name and not of all uses of the name on its line. To tell which use of a
name a run has come to, the uses of the program are numbered: the numbered program does what the
program does, and its faults and events carry the number of the use that they are from.
-/

namespace Quill

/-! ## Leaving functions

At the top level no function is there to be left. -/

/-- If the action comes to an end, it does not leave the function. -/
def StaysNormal (action : Eval Flow) : Prop :=
  ∀ m v m', action m ≠ .ok (.returned v) m'

namespace StaysNormal

variable {α : Type}

/-- What ends normally does not leave the function. -/
theorem pure_normal : StaysNormal (pure .normal) := nofun

/-- What stops does not come to an end. -/
theorem throw (stop : Stop) : StaysNormal (throw stop) := nofun

/-- One action after another does not leave the function if the last does not. -/
theorem bind {x : Eval α} {f : α → Eval Flow} (hf : ∀ a, StaysNormal (f a)) :
    StaysNormal (x >>= f) := by
  intro m v m' h
  cases hx : x m with
  | error stop m₁ =>
    rw [Eval.bind_eq_of_error hx] at h
    cases h
  | ok a m₁ =>
    rw [Eval.bind_eq_of_ok hx] at h
    exact hf a m₁ v m' h

/-- What follows an action that stays normal. -/
theorem bind_flow {x : Eval Flow} (hx : StaysNormal x) {f : Flow → Eval Flow}
    (hf : StaysNormal (f .normal)) : StaysNormal (x >>= f) := by
  intro m v m' h
  cases hx' : x m with
  | error stop m₁ =>
    rw [Eval.bind_eq_of_error hx'] at h
    cases h
  | ok flow m₁ =>
    rw [Eval.bind_eq_of_ok hx'] at h
    cases flow with
    | normal => exact hf m₁ v m' h
    | returned v' => exact hx m v' m₁ hx'

/-- What runs in another scope leaves the function only if it does so here. -/
theorem inScope {scope : ScopeId} {action : Eval Flow} (h : StaysNormal action) :
    StaysNormal (Eval.inScope scope action) := by
  intro m v m' hok
  unfold Eval.inScope at hok
  dsimp only at hok
  split at hok
  · next flow m₁ haction =>
    cases hok
    exact h _ _ _ haction
  · cases hok

/-- A loop does not leave the function if its body does not. -/
theorem loopAtFuel {condition : Eval Value} {body : Eval Flow} (hbody : StaysNormal body) :
    ∀ fuel, StaysNormal (Eval.loopAtFuel condition body fuel)
  | 0 => throw .unfinished
  | fuel + 1 => by
    rw [Eval.loopAtFuel]
    refine bind fun value => ?_
    split
    · exact hbody.bind_flow (loopAtFuel hbody fuel)
    · exact pure_normal

end StaysNormal

variable {uses : List Use} {p : Site}

mutual

/-- A settled statement outside of functions does not leave one. -/
theorem Stmt.Settled.staysNormal (call : Caller) (fuel : Nat) : (s : Stmt) → ∀ {p : Site},
    s.Settled uses p → p.captured = [] → StaysNormal (s.execute call fuel)
  | .expression value, _, _, _ => by
    rw [Stmt.execute]
    exact .bind fun _ => .pure_normal
  | .print value, _, _, _ => by
    rw [Stmt.execute]
    exact .bind fun _ => .bind fun _ => .pure_normal
  | .declare name initial, _, _, _ => by
    rw [Stmt.execute]
    exact .bind fun _ => .bind fun _ => .pure_normal
  | .block body, p, h, hp => by
    rw [Stmt.execute]
    have hbody := Stmt.ListSettled.staysNormal call fuel body h.block hp
    exact .bind fun _ => .bind fun _ => .inScope hbody
  | .branch condition thenBranch none, p, h, hp => by
    rw [Stmt.execute]
    refine .bind fun v => ?_
    split
    · exact Stmt.Settled.staysNormal call fuel thenBranch h.branch_none.2.1 hp
    · exact .pure_normal
  | .branch condition thenBranch (some elseBranch), p, h, hp => by
    rw [Stmt.execute]
    obtain ⟨-, ⟨hthen, -⟩, helse, -⟩ := h.branch_some
    refine .bind fun v => ?_
    split
    · exact Stmt.Settled.staysNormal call fuel thenBranch hthen hp
    · exact Stmt.Settled.staysNormal call fuel elseBranch helse hp
  | .loop condition body, p, h, hp => by
    rw [Stmt.execute]
    exact .loopAtFuel (Stmt.Settled.staysNormal call fuel body h.loop.2.1 hp) fuel
  | .leave line value, p, h, hp => absurd hp h.leave.2
  | .function f, _, _, _ => by
    rw [Stmt.execute]
    exact .bind fun _ => .pure_normal
  | .classOf c, _, _, _ => by
    rw [Stmt.execute]
    exact .bind fun _ => .pure_normal

/-- Settled statements that no function is around do not leave it. -/
theorem Stmt.ListSettled.staysNormal (call : Caller) (fuel : Nat) : (body : List Stmt) →
    ∀ {p : Site}, Stmt.ListSettled uses p body → p.captured = [] →
      StaysNormal (Stmt.executeAll call fuel body)
  | [], _, _, _ => by
    rw [Stmt.executeAll]
    exact .pure_normal
  | s :: rest, p, h, hp => by
    rw [Stmt.executeAll]
    exact (Stmt.Settled.staysNormal call fuel s h.cons.1 hp).bind_flow
      (Stmt.ListSettled.staysNormal call fuel rest h.cons.2 hp)

end

/-- None of the settled statements that no function is around leaves it. -/
theorem Stmt.ListSettled.staysNormal_of_mem (call : Caller) (fuel : Nat) : ∀ {body : List Stmt}
    {p : Site}, Stmt.ListSettled uses p body → p.captured = [] →
      ∀ s ∈ body, StaysNormal (s.execute call fuel)
  | [], _, _, _ => nofun
  | s :: rest, p, h, hp => by
    intro s' hs'
    rcases List.mem_cons.1 hs' with rfl | hs'
    · exact Stmt.Settled.staysNormal call fuel s' h.cons.1 hp
    · exact Stmt.ListSettled.staysNormal_of_mem call fuel h.cons.2 hp s' hs'

/-! ## The top level -/

/-- Where no statement leaves a function, they are all executed unless one of them stops. -/
theorem runTopLevel_eq_forM (fuel : Nat) {body : List Stmt}
    (h : ∀ s ∈ body, StaysNormal (executeAtFuel fuel s)) :
    runTopLevel fuel body = forM body fun s => discard (executeAtFuel fuel s) := by
  induction body with
  | nil => rfl
  | cons s rest ih =>
    have hrest := ih fun s' hs' => h s' (List.mem_cons_of_mem s hs')
    funext m
    rw [runTopLevel, List.forM_cons, ← hrest]
    cases hs : executeAtFuel fuel s m with
    | error stop m' =>
      have hdiscard : discard (executeAtFuel fuel s) m = .error stop m' := by
        show EStateM.map _ _ m = _
        rw [EStateM.map, hs]
      rw [Eval.bind_eq_of_error hs, Eval.bind_eq_of_error hdiscard]
    | ok flow m' =>
      have hdiscard : discard (executeAtFuel fuel s) m = .ok () m' := by
        show EStateM.map _ _ m = _
        rw [EStateM.map, hs]
      rw [Eval.bind_eq_of_ok hs, Eval.bind_eq_of_ok hdiscard]
      cases flow with
      | normal => rfl
      | returned v => exact absurd hs (h s List.mem_cons_self m v m')

/-- A well-formed program without issues stops for what it may. Nothing is asked of the lines that
its names carry, so they may tell any two uses of a name apart. -/
theorem Program.permitted {program : Program} (hwf : program.wellFormed = true)
    (hclean : program.scopeIssues = []) {fuel : Nat} {m m' : Machine} {fault : Fault}
    (h : runAtFuel fuel program m = .error (.fault fault) m') :
    Permitted program.uses (.fault fault) := by
  have htop := Eval.eq_error_of_flushing h
  rw [runTopLevel_eq] at htop
  obtain ⟨W, hruns⟩ := Program.runs hwf hclean fuel m
  unfold Runs at hruns
  cases hbody : Stmt.executeAll (callAtFuel fuel) fuel program.declarations m.restart with
  | ok flow m₁ =>
    rw [hbody] at htop
    cases htop
  | error stop m₁ =>
    rw [hbody] at htop hruns
    cases htop
    exact hruns.1

/-! ## Undefined variables -/

/-- The use with the number is of the name on the line, inside of a class that has a method of this
name. -/
def Program.NamesMethodAt (program : Program) (number : Nat) (name : String) (line : Nat) : Prop :=
  ∃ use, program.uses[number]? = some use ∧ use.name = ⟨name, line⟩
    ∧ ∃ c ∈ use.site.classes, ∃ method ∈ c.methods, method.name.text = name

/-- From the state, the run fails because the name has no value at the use with the number, which is
on the line: that is where the numbered program fails. -/
def Program.UndefinedAt (program : Program) (fuel : Nat) (m : Machine) (number : Nat)
    (name : String) (line : Nat) : Prop :=
  ∃ m', runAtFuel fuel program.numbered m =
    .error (.fault ⟨.undefinedVariable name, numberedLine number line⟩) m'

/-- A run that fails for an undefined variable does so at a use of some number. -/
theorem Program.exists_undefinedAt {program : Program} {fuel : Nat} {m m' : Machine} {name : String}
    {line : Nat}
    (h : runAtFuel fuel program m = .error (.fault ⟨.undefinedVariable name, line⟩) m') :
    ∃ number, program.UndefinedAt fuel m number name line := by
  have houtcome := outcome_mapLines lineOf fuel program.numbered (m := m) rfl
  rw [program.mapLines_numbered, h] at houtcome
  cases hrun : runAtFuel fuel program.numbered m with
  | ok _ m₁ =>
    rw [hrun] at houtcome
    cases congrArg Prod.fst houtcome
  | error stop m₁ =>
    rw [hrun] at houtcome
    have hstop : Stop.mapLine lineOf stop = .fault ⟨.undefinedVariable name, line⟩ :=
      (Option.some.inj (congrArg Prod.fst houtcome)).symm
    cases stop with
    | fault fault =>
      obtain ⟨cause, numbered⟩ := fault
      cases hstop
      refine ⟨numberOf numbered, m₁, ?_⟩
      rw [numberedLine_numberOf, hrun]
    | _ => cases hstop

/-- Where a use of the numbered program names a method, the use of its number does so in the
program. -/
theorem NamesMethod.namesMethodAt {program : Program} {number line : Nat} {name : String}
    (h : NamesMethod program.numbered.uses name (numberedLine number line)) :
    program.NamesMethodAt number name line := by
  obtain ⟨use, huse, hname, c, hc, method, hmethod, htext⟩ := h
  have hget := Program.getElem?_uses huse
  rw [Use.number, hname, numberOf_numberedLine] at hget
  refine ⟨_, hget, ?_, c.mapLines lineOf, ?_, method.mapLines lineOf, ?_, ?_⟩
  · simp [Use.mapLines, hname, Name.mapLine]
  · rw [Use.mapLines, Site.classes_mapLines]
    exact List.mem_map_of_mem hc
  · rw [ClassDecl.methods_mapLines]
    exact List.mem_map_of_mem hmethod
  · rw [FunctionDecl.name_mapLines, Name.text_mapLine, htext]

/-- A program without scope issues fails for an undefined variable only at a use that names a method
of a class around it as if this was a variable, and never for a receiver. Nothing at its top level
leaves a function, so that all of it is executed unless it stops. -/
theorem undefined_only_at_methods {source : String} {program : Program}
    (hparse : parse source = .ok program) (hclean : program.scopeIssues = []) (fuel : Nat) :
    (∀ m name line m',
      runAtFuel fuel program m = .error (.fault ⟨.undefinedVariable name, line⟩) m' →
        name ≠ receiverName ∧ ∃ number, program.UndefinedAt fuel m number name line
          ∧ program.NamesMethodAt number name line)
    ∧ (∀ s ∈ program.declarations, ∀ m v m', executeAtFuel fuel s m ≠ .ok (.returned v) m')
    ∧ ∀ m, runAtFuel fuel program m =
        Eval.flushing (forM program.declarations fun s => discard (executeAtFuel fuel s))
          m.restart := by
  obtain ⟨-, hwf⟩ := spells_of_parse hparse
  have hnormal : ∀ s ∈ program.declarations, StaysNormal (executeAtFuel fuel s) :=
    Stmt.ListSettled.staysNormal_of_mem _ fuel (Program.listSettled hwf hclean) rfl
  refine ⟨fun m name line m' h => ?_, hnormal, fun m => ?_⟩
  · obtain ⟨number, hundefined⟩ := Program.exists_undefinedAt h
    obtain ⟨m₁, hnumbered⟩ := id hundefined
    obtain ⟨hname, hmethod⟩ := Program.permitted (program.wellFormed_numbered.trans hwf)
      (Program.scopeIssues_numbered hclean) hnumbered
    exact ⟨hname, number, hundefined, hmethod.namesMethodAt⟩
  · rw [runAtFuel, runTopLevel_eq_forM fuel hnormal]

/-- A method that calls another by its bare name. -/
def bareMethodCall : String :=
  "class C \x7b fn a() \x7b\x7d\nfn b() \x7b a(); \x7d \x7d C().b();"

/-- Such a program has no scope issues and fails for the name of the method. -/
theorem undefined_only_at_methods_bare :
    ∃ program, parse bareMethodCall = .ok program ∧ program.scopeIssues = []
      ∧ (∃ m', runAtFuel 3 program (.ofSink .unlimited) =
        .error (.fault ⟨.undefinedVariable "a", 2⟩) m')
      ∧ ∃ number, program.UndefinedAt 3 (.ofSink .unlimited) number "a" 2
        ∧ program.NamesMethodAt number "a" 2 := by
  have hrun : ((parse bareMethodCall).toOption.map fun program =>
      (program.scopeIssues.isEmpty, faultAtFuel? 3 program (.ofSink .unlimited))) =
        some (true, some ⟨.undefinedVariable "a", 2⟩) := by
    decide +kernel
  obtain ⟨program, hsome, hpair⟩ := Option.map_eq_some_iff.1 hrun
  rw [Prod.mk.injEq, List.isEmpty_iff] at hpair
  have hparse := parse_eq_ok_of_toOption hsome
  obtain ⟨m', hfails⟩ := exists_of_faultAtFuel? hpair.2
  have hsound := undefined_only_at_methods hparse hpair.1 3
  exact ⟨program, hparse, hpair.1, ⟨m', hfails⟩, (hsound.1 _ _ _ m' hfails).2⟩

/-! ## Constants -/

/-- The use with the number is an assignment to the name where a function or class of this name may
have been declared late. -/
def Program.AssignsLateAt (program : Program) (number : Nat) (name : Name) : Prop :=
  ∃ use, program.uses[number]? = some use ∧ use.name = name ∧ use.isAssignment = true
    ∧ use.site.isLate name.text = true

/-- Where a use of the numbered program assigns late, the use of its number does so in the
program. -/
theorem AssignedLate.assignsLateAt {program : Program} {number : Nat} {name : Name}
    (h : AssignedLate program.numbered.uses (name.mapLine (numberedLine number))) :
    program.AssignsLateAt number name := by
  obtain ⟨use, huse, hname, hassignment, hlate⟩ := h
  have hget := Program.getElem?_uses huse
  have hnumber : use.number = number := by
    rw [Use.number, hname]
    exact numberOf_numberedLine number name.line
  rw [hnumber] at hget
  refine ⟨_, hget, ?_, hassignment, ?_⟩
  · rw [Use.mapLines, hname, Name.mapLine_lineOf]
  · rw [Use.mapLines, Site.isLate_mapLines]
    exact hlate

/-- Among the events of the run, the assignment that is the use with the number overwrites a function
or class in the scope. The events are those of the numbered program, where each assignment carries
its number. -/
def Program.OverwritesAt (program : Program) (fuel : Nat) (m : Machine) (scope : ScopeId)
    (number : Nat) (name : Name) : Prop :=
  Overwrites (program.numbered.eventsAtFuel fuel m) scope (name.mapLine (numberedLine number))

/-- A run of a program without scope issues overwrites a function or class only by assignments that
may find it declared late: those in a function around which the name is declared further on, while
no scope nearer to the assignment has declared it. The events of the run account for all that it
does to bindings, and they are those of the numbered program on their own lines. -/
theorem overwrites_only_late {source : String} {program : Program}
    (hparse : parse source = .ok program) (hclean : program.scopeIssues = []) (fuel : Nat)
    (m : Machine) :
    Traced m.restart (runTopLevel fuel program.declarations)
        (fun _ => program.eventsAtFuel fuel m)
      ∧ program.eventsAtFuel fuel m =
        (program.numbered.eventsAtFuel fuel m).map (Event.mapLine lineOf)
      ∧ ∀ scope number name, program.OverwritesAt fuel m scope number name →
        program.AssignsLateAt number name := by
  obtain ⟨-, hwf⟩ := spells_of_parse hparse
  refine ⟨program.traced fuel m, ?_, fun scope number name hover => ?_⟩
  · rw [← Program.eventsAtFuel_mapLines, Program.mapLines_numbered]
  · obtain ⟨W, hruns⟩ := Program.runs (program.wellFormed_numbered.trans hwf)
      (Program.scopeIssues_numbered hclean) fuel m
    obtain ⟨W', hjust⟩ := hruns.justified
    exact (hjust.assignedLate hover).assignsLateAt

/-- A function that assigns to a variable around it, and another of the name of that variable which
is declared before the first is called. -/
def lateDeclaration : String :=
  "let x = nil; \x7b fn f() \x7b x = true; \x7d fn x() \x7b\x7d f(); \x7d"

/-- The program has no issues, and the events of its run end with the assignment. -/
theorem exists_parse_lateDeclaration :
    ∃ program, parse lateDeclaration = .ok program ∧ program.scopeIssues = []
      ∧ program.eventsAtFuel 3 (.ofSink .unlimited) =
        [.introduced ⟨1⟩ "x", .declared ⟨2⟩ "f", .declared ⟨2⟩ "x"]
          ++ [.assigned ⟨2⟩ ⟨"x", 1⟩] := by
  have hrun : ((parse lateDeclaration).toOption.map fun program =>
      (program.scopeIssues.isEmpty, program.eventsAtFuel 3 (.ofSink .unlimited))) =
        some (true, [.introduced ⟨1⟩ "x", .declared ⟨2⟩ "f", .declared ⟨2⟩ "x",
          .assigned ⟨2⟩ ⟨"x", 1⟩]) := by
    decide +kernel
  obtain ⟨program, hsome, hpair⟩ := Option.map_eq_some_iff.1 hrun
  rw [Prod.mk.injEq, List.isEmpty_iff] at hpair
  exact ⟨program, parse_eq_ok_of_toOption hsome, hpair⟩

/-- There is no scope issue, and the assignment overwrites the function. -/
theorem late_declaration_overwritten :
    ∃ program, parse lateDeclaration = .ok program ∧ program.scopeIssues = []
      ∧ Overwrites (program.eventsAtFuel 3 (.ofSink .unlimited)) ⟨2⟩ ⟨"x", 1⟩ := by
  obtain ⟨program, hparse, hclean, hevents⟩ := exists_parse_lateDeclaration
  refine ⟨program, hparse, hclean, _, [], hevents, ?_⟩
  decide

/-- The first use is the assignment that overwrites the function, and it may find it declared
late. -/
theorem late_declaration_assigned_late :
    ∃ program, parse lateDeclaration = .ok program ∧ program.scopeIssues = []
      ∧ program.OverwritesAt 3 (.ofSink .unlimited) ⟨2⟩ 0 ⟨"x", 1⟩
      ∧ program.AssignsLateAt 0 ⟨"x", 1⟩ := by
  have hrun : ((parse lateDeclaration).toOption.map fun program =>
      (program.scopeIssues.isEmpty, program.numbered.eventsAtFuel 3 (.ofSink .unlimited))) =
        some (true, [.introduced ⟨1⟩ "x", .declared ⟨2⟩ "f", .declared ⟨2⟩ "x",
          .assigned ⟨2⟩ ⟨"x", numberedLine 0 1⟩]) := by
    decide +kernel
  obtain ⟨program, hsome, hpair⟩ := Option.map_eq_some_iff.1 hrun
  rw [Prod.mk.injEq, List.isEmpty_iff] at hpair
  have hparse := parse_eq_ok_of_toOption hsome
  have hover : program.OverwritesAt 3 (.ofSink .unlimited) ⟨2⟩ 0 ⟨"x", 1⟩ :=
    ⟨[.introduced ⟨1⟩ "x", .declared ⟨2⟩ "f", .declared ⟨2⟩ "x"], [], hpair.2, by decide⟩
  obtain ⟨-, -, hlate⟩ := overwrites_only_late hparse hpair.1 3 (.ofSink .unlimited)
  exact ⟨program, hparse, hpair.1, hover, hlate _ _ _ hover⟩

end Quill
