import Quill.Proofs.Scoping.Simulation

/-!
# Statements, calls and programs without scope issues

Statements move their scope on, where expressions leave all that is known as it was. So behind a
statement only the scopes other than its own are as before (`Leaves`), and its own scope is at the
site behind the statement (`Advances`).

Calls are run with less fuel than they are made with. `bodiesRun` and `callsRun` go up along the
fuel: bodies run if the calls in them do, and calls run if bodies do. `Program.runs` is what all of
this comes to for a program from its start.
-/

namespace Quill

variable {uses : List Use} {base : Nat} {W W' W'' : World} {m m' : Machine} {p : Site}
  {g : Standing}

/-! ## What statements leave behind -/

variable (uses) (base) in
/-- A value that leaves the function is in order. -/
def Flow.InOrder (W : World) : Flow → Prop
  | .normal => True
  | .returned v => v.InOrder uses base W

variable (uses) (base) in
/-- What statements leave behind: the scope that they started in, and all scopes but this as they
were. -/
structure Leaves (W : World) (m : Machine) (W' : World) (flow : Flow) (m' : Machine) : Prop where
  scope : m'.scope = m.scope
  others : W.ExtendsBut m.scope W'
  flow : flow.InOrder uses base W'

variable (uses) (base) in
/-- What a statement leaves behind: its scope has come to the site. -/
structure Advances (p : Site) (W : World) (m : Machine) (W' : World) (flow : Flow) (m' : Machine) :
    Prop extends Leaves uses base W m W' flow m' where
  stands : ∃ g, W'.StandsAt m.scope p g

/-- A statement that declares nothing stays where it is. -/
theorem Site.after_of_not_declaration (p : Site) {s : Stmt} (hs : s.isDeclaration = false) :
    p.after s = p := by
  cases s with
  | declare name initial => cases hs
  | function declaration => cases hs
  | classOf declaration => cases hs
  | _ => rfl

namespace Advances

variable {flow : Flow} {m'' : Machine}

/-- A statement that only evaluates an expression. -/
theorem of_yields {v : Value} (h : Yields uses base W m W' v m') (hstands : W.StandsAt m.scope p g)
    (hflow : flow.InOrder uses base W') : Advances uses base p W m W' flow m' where
  scope := h.scope
  others := h.extends_.but m.scope
  flow := hflow
  stands := ⟨g, hstands.extends h.extends_⟩

/-- An expression before. -/
theorem after_yields {v : Value} (h : Yields uses base W m W' v m')
    (h' : Advances uses base p W' m' W'' flow m'') : Advances uses base p W m W'' flow m'' where
  scope := h'.scope.trans h.scope
  others := (h.extends_.but m.scope).trans (h.scope ▸ h'.others)
  flow := h'.flow
  stands := h.scope ▸ h'.stands

end Advances

/-- Statements behind a statement. -/
theorem Leaves.trans {flow flow' : Flow} {m'' : Machine} (h : Leaves uses base W m W' flow m')
    (h' : Leaves uses base W' m' W'' flow' m'') : Leaves uses base W m W'' flow' m'' where
  scope := h'.scope.trans h.scope
  others := h.others.trans (h.scope ▸ h'.others)
  flow := h'.flow

/-! ## Declarations -/

/-- A name comes into the innermost scope: this moves on, and the value, which may already see the
name, keeps all in order. -/
theorem Consistent.declares {s : Store} (h : Consistent uses base W s) {scope : ScopeId}
    (hstands : W.StandsAt scope p g) (hplain : p.here.classOf? = none) {name : String}
    {sort : SymbolSort} (hnew : p.here.names.get? name = none)
    (hlater : sort.isConstant = true → name ∈ p.here.later) :
    ∃ W', W.Le W' ∧ W.ExtendsBut scope W'
      ∧ (∃ g', W'.StandsAt scope { p with here := p.here.declare name sort } g')
      ∧ ∀ v, v.InOrder uses base W' → Consistent uses base W' (s.define scope name v) := by
  obtain ⟨level, enclosing⟩ := g
  have hlevel : level = p.here := by
    obtain ⟨_, _, -, hlevel, -, -⟩ := hstands.levels
    exact hlevel
  subst hlevel
  have hle : p.here.Le (p.here.declare name sort) := .declare hnew hlater
  have hbut := World.extendsBut_update (W := W) scope ⟨p.here.declare name sort, enclosing⟩
  exact ⟨_, World.le_update hstands.known hle, hbut, ⟨_, h.standsAt_update hstands hle⟩,
    fun v hv => h.declare hstands.known hplain hle hv⟩

/-- Declaring a variable takes a scope to the site behind it. -/
theorem runs_declareVariable (hstore : Consistent uses base W m.store)
    (hstands : W.StandsAt m.scope p g) (hplain : p.here.classOf? = none) {name : String}
    (hnew : p.here.names.get? name = none) {v : Value} (hv : v.InOrder uses base W) :
    Runs uses base W m (Eval.declareVariable name v) (.ofVariable name) fun W' _ m' =>
      Advances uses base { p with here := p.here.declare name .var } W m W' .normal m' := by
  have hvar : SymbolSort.isConstant .var = true → name ∈ p.here.later := nofun
  obtain ⟨W', hle, hbut, hmoved, hdefine⟩ := hstore.declares hstands hplain hnew hvar
  exact .of_ok rfl hle (hdefine v (hv.mono hle)) ⟨⟨rfl, hbut, trivial⟩, hmoved⟩

/-- What has just been declared as a function or class is a constant. -/
theorem World.StandsAt.hasConstant {scope : ScopeId} {level : Level} {name : String}
    {sort : SymbolSort} (hsort : sort.isConstant = true)
    (h : W.StandsAt scope { p with here := level.declare name sort } g) :
    W.HasConstant scope name := by
  obtain ⟨_, _, -, hlevel, -, -⟩ := h.levels
  refine ⟨g, sort, h.known, ?_, hsort⟩
  rw [hlevel, Level.declare, Bindings.get?_insert, if_pos rfl]

/-- A function or class is declared. It closes over the innermost scope, which has its name by
then. -/
theorem runs_declareConstant {action : Eval Unit} {name : String} {sort : SymbolSort} {s : Store}
    {v : Value} (hok : action m = .ok () { m with store := s.define m.scope name v })
    (hstore : Consistent uses base W s) (hstands : W.StandsAt m.scope p g)
    (hplain : p.here.classOf? = none) (hsort : sort.isConstant = true)
    (hnew : p.here.names.get? name = none) (hlater : name ∈ p.here.later)
    (hv : ∀ {W' g'}, World.StandsAt W' m.scope { p with here := p.here.declare name sort } g' →
      v.InOrder uses base W') :
    Runs uses base W m action (.ofDeclaration name) fun W' _ m' =>
      Advances uses base { p with here := p.here.declare name sort } W m W' .normal m' := by
  obtain ⟨W', hle, hbut, ⟨g', hmoved⟩, hdefine⟩ :=
    hstore.declares hstands hplain hnew fun _ => hlater
  refine .of_ok hok ?_ (hdefine v (hv hmoved)) ⟨⟨rfl, hbut, trivial⟩, g', hmoved⟩
  exact ⟨W', hle, hmoved.hasConstant hsort, .refl W'⟩

/-- Declaring a function takes a scope to the site behind it. -/
theorem runs_declareFunction (hstore : Consistent uses base W m.store)
    (hstands : W.StandsAt m.scope p g) (hplain : p.here.classOf? = none) {f : FunctionDecl}
    (hf : Stmt.Settled uses p (.function f)) :
    Runs uses base W m (declareFunction f) (.ofDeclaration f.name.text) fun W' _ m' =>
      Advances uses base (p.after (.function f)) W m W' .normal m' := by
  obtain ⟨hnew, hbody⟩ := hf.function
  have hstore' : Consistent uses base W (m.store.addFunction f m.scope).2 := hstore.congr rfl rfl
  refine runs_declareConstant rfl hstore' hstands hplain rfl hnew (hf.promised _ rfl) ?_
  intro W' g' hmoved
  exact ⟨g', _, hmoved.known, hmoved.aligned, hbody⟩

/-- Declaring a class takes a scope to the site behind it. -/
theorem runs_declareClass (hstore : Consistent uses base W m.store)
    (hstands : W.StandsAt m.scope p g) (hplain : p.here.classOf? = none) {c : ClassDecl}
    (hc : Stmt.Settled uses p (.classOf c)) :
    Runs uses base W m (declareClass c) (.ofDeclaration c.name.text) fun W' _ m' =>
      Advances uses base (p.after (.classOf c)) W m W' .normal m' := by
  obtain ⟨hnew, hmethods⟩ := hc.classOf
  have hstore' : Consistent uses base W (m.store.addClass c m.scope).2 := hstore.congr rfl rfl
  refine runs_declareConstant rfl hstore' hstands hplain rfl hnew (hc.promised _ rfl) ?_
  intro W' g' hmoved
  exact ⟨g', _, hmoved.known, hmoved.aligned, hmethods⟩

/-! ## New scopes -/

/-- A new scope inside another stands for the start of a block there. -/
theorem Consistent.addBlock {s : Store} (h : Consistent uses base W s) {scope : ScopeId}
    (hstands : W.StandsAt scope p g) (body : List Stmt) :
    ∃ W', W.Extends W' ∧ Consistent uses base W' (s.addChild scope).2
      ∧ ∃ g', W'.StandsAt (s.addChild scope).1 (p.insideBlock body) g' := by
  let g' : Standing := ⟨.ofBody .empty body, scope :: g.enclosing⟩
  have hext : W.Extends (Function.update W ⟨s.scopes.size⟩ (some g')) :=
    World.extends_update h.unknown g'
  refine ⟨_, hext, ?_, g', Function.update_self .., ?_⟩
  · rw [Store.addChild, h.chain_eq hstands.known]
    exact h.addScope (h.chain_older hstands.known) (constants body)
  · obtain ⟨hknown, inner, outer, henc, hhere, hinner, houter⟩ := hstands.extends hext
    refine ⟨scope :: inner, outer, ?_, rfl, .cons ⟨g, hknown, hhere⟩ hinner, houter⟩
    rw [List.cons_append, ← henc]

/-- Seen from before a scope came in, whatever happened in it left all else as it was. -/
theorem World.Extends.of_new {scope : ScopeId} (hnew : W scope = none) (h : W.Extends W')
    (h' : W'.ExtendsBut scope W'') : W.Extends W'' := by
  intro id g hg
  have hne : id ≠ scope := by
    rintro rfl
    rw [hnew] at hg
    cases hg
  exact h' id g hne (h id g hg)

/-! ## Statements -/

/-- Printing leaves the world as it is. -/
theorem runs_printLine (hstore : Consistent uses base W m.store) (v : Value) :
    Runs uses base W m (Eval.printLine v) .none fun W' _ m' => W' = W ∧ m'.scope = m.scope := by
  obtain ⟨sink, hok | ⟨fault, herror⟩⟩ := printLine_eq v m
  · exact .of_ok hok (World.Le.refl W) hstore ⟨rfl, rfl⟩
  · exact .of_error herror trivial (World.Le.refl W)

/-- A loop stays at its site from round to round. -/
theorem runs_loopAtFuel {condition : Eval Value} {conditionEvents : Events} {body : Eval Flow}
    {bodyEvents : Events}
    (hcondition : ∀ {W m g}, Consistent uses base W m.store → W.StandsAt m.scope p g →
      Runs uses base W m condition conditionEvents (Yields uses base W m))
    (hbody : ∀ {W m g}, Consistent uses base W m.store → W.StandsAt m.scope p g →
      Runs uses base W m body bodyEvents (Advances uses base p W m)) :
    ∀ (fuel : Nat) {W m g}, Consistent uses base W m.store → W.StandsAt m.scope p g →
      Runs uses base W m (Eval.loopAtFuel condition body fuel)
        (loopEvents condition conditionEvents body bodyEvents fuel) (Advances uses base p W m)
  | 0, _, _, _, _, _ => .throw trivial
  | fuel + 1, W, m, g, hstore, hstands => by
    rw [Eval.loopAtFuel, loopEvents]
    refine (hcondition hstore hstands).bind fun W₁ v m₁ hstore₁ hv => ?_
    have hstands₁ := hv.standsAt hstands
    cases v.isTruthy with
    | false => exact .pure hstore₁ (.of_yields hv hstands trivial)
    | true =>
      refine (hbody hstore₁ hstands₁).bind fun W₂ flow m₂ hstore₂ hround => ?_
      have hsofar := hround.after_yields hv
      cases flow with
      | returned v' => exact .pure hstore₂ hsofar
      | normal =>
        obtain ⟨g₂, hstands₂⟩ := hsofar.stands
        rw [← hsofar.scope] at hstands₂
        refine (runs_loopAtFuel hcondition hbody fuel hstore₂ hstands₂).mono
          fun W₃ flow m₃ hrest => ?_
        exact ⟨hsofar.toLeaves.trans hrest.toLeaves, hsofar.scope ▸ hrest.stands⟩

/-- A branch declares nothing, so the site behind it is the one of the condition. -/
theorem Runs.branch {v : Value} (hv : Yields uses base W m W' v m') {s : Stmt}
    (hs : s.isDeclaration = false) {action : Eval Flow} {events : Events}
    (h : Runs uses base W' m' action events (Advances uses base (p.after s) W' m')) :
    Runs uses base W' m' action events (Advances uses base p W m) := by
  rw [p.after_of_not_declaration hs] at h
  exact h.mono fun W'' flow m'' hflow => hflow.after_yields hv

mutual

/-- A settled statement runs well wherever its site is reached, and goes on to the site behind it.
-/
theorem Stmt.runs {call : Caller} {calls : CallEvents} (hcalls : CallsRun uses base call calls)
    (fuel : Nat) : (s : Stmt) → ∀ {W : World} {m : Machine} {p : Site} {g : Standing},
      s.Settled uses p → p.here.classOf? = none → Consistent uses base W m.store →
      W.StandsAt m.scope p g →
      Runs uses base W m (s.execute call fuel) (s.events call calls fuel)
        (Advances uses base (p.after s) W m)
  | .expression value, W, m, p, g, h, _, hstore, hstands => by
    rw [Stmt.execute, Stmt.events]
    refine (Expr.runs hcalls value h.expression hstore hstands).bind_none
      fun W' v m' hstore' hv => ?_
    exact .pure hstore' (.of_yields hv hstands trivial)
  | .print value, W, m, p, g, h, _, hstore, hstands => by
    rw [Stmt.execute, Stmt.events]
    refine (Expr.runs hcalls value h.print hstore hstands).bind_none fun W₁ v m₁ hstore₁ hv => ?_
    refine (runs_printLine hstore₁ v).bind_none fun W₂ _ m₂ hstore₂ hpost => ?_
    obtain ⟨rfl, hscope⟩ := hpost
    exact .pure hstore₂
      (.of_yields ⟨hscope.trans hv.scope, hv.extends_, hv.value⟩ hstands trivial)
  | .declare name initial, W, m, p, g, h, hplain, hstore, hstands => by
    rw [Stmt.execute, Stmt.events]
    obtain ⟨hinitial, hnew⟩ := h.declare
    refine (Expr.optionRuns hcalls hinitial hstore hstands).bind fun W₁ v m₁ hstore₁ hv => ?_
    refine (runs_declareVariable hstore₁ (hv.standsAt hstands) hplain hnew hv.value).bind_none
      fun W₂ _ m₂ hstore₂ hmoved => ?_
    exact .pure hstore₂ (hmoved.after_yields hv)
  | .block body, W, m, p, g, h, _, hstore, hstands => by
    rw [Stmt.execute, Stmt.events]
    have hget : (get : Eval Machine) m = .ok m m := rfl
    refine .of_eq (Eval.bind_eq_of_ok hget) ?_
    obtain ⟨W₁, hext, hstore₁, g₁, hstands₁⟩ := hstore.addBlock hstands body
    have hnew : Runs uses base W m (Eval.newScope m.scope) .none fun W' scope m' =>
        W' = W₁ ∧ scope = (m.store.addChild m.scope).1
          ∧ m' = { m with store := (m.store.addChild m.scope).2 } :=
      .withStore hext.le hstore₁ ⟨rfl, rfl, rfl⟩
    refine hnew.bind fun W₂ scope m₂ hstore₂ hpost => .inScope ?_
    obtain ⟨rfl, rfl, rfl⟩ := hpost
    let inside : Machine :=
      { m with store := (m.store.addChild m.scope).2, scope := (m.store.addChild m.scope).1 }
    refine (Stmt.listRuns (m := inside) hcalls fuel body h.block rfl hstore₂ hstands₁).mono
      fun W₃ flow m₃ hbody => ?_
    have hall := hext.of_new hstore.unknown hbody.others
    exact ⟨⟨rfl, hall.but _, hbody.flow⟩, g, hstands.extends hall⟩
  | .branch condition thenBranch none, W, m, p, g, h, hplain, hstore, hstands => by
    rw [Stmt.execute, Stmt.events]
    obtain ⟨hcondition, hthen, hnone⟩ := h.branch_none
    refine (Expr.runs hcalls condition hcondition hstore hstands).bind
      fun W₁ v m₁ hstore₁ hv => ?_
    cases v.isTruthy with
    | false => exact .pure hstore₁ (.of_yields hv hstands trivial)
    | true =>
      refine .branch hv hnone ?_
      exact Stmt.runs hcalls fuel thenBranch hthen hplain hstore₁ (hv.standsAt hstands)
  | .branch condition thenBranch (some elseBranch), W, m, p, g, h, hplain, hstore, hstands => by
    rw [Stmt.execute, Stmt.events]
    obtain ⟨hcondition, ⟨hthen, hnone⟩, helse, hnone'⟩ := h.branch_some
    refine (Expr.runs hcalls condition hcondition hstore hstands).bind
      fun W₁ v m₁ hstore₁ hv => ?_
    cases v.isTruthy with
    | false =>
      refine .branch hv hnone' ?_
      exact Stmt.runs hcalls fuel elseBranch helse hplain hstore₁ (hv.standsAt hstands)
    | true =>
      refine .branch hv hnone ?_
      exact Stmt.runs hcalls fuel thenBranch hthen hplain hstore₁ (hv.standsAt hstands)
  | .loop condition body, W, m, p, g, h, hplain, hstore, hstands => by
    rw [Stmt.execute, Stmt.events]
    obtain ⟨hcondition, hbody, hnone⟩ := h.loop
    refine runs_loopAtFuel (p := p) (Expr.runs hcalls condition hcondition)
      (fun hstore' hstands' => ?_) fuel hstore hstands
    have hround := Stmt.runs hcalls fuel body hbody hplain hstore' hstands'
    rw [p.after_of_not_declaration hnone] at hround
    exact hround
  | .leave line value, W, m, p, g, h, _, hstore, hstands => by
    rw [Stmt.execute, Stmt.events]
    refine (Expr.optionRuns hcalls h.leave.1 hstore hstands).bind_none
      fun W' v m' hstore' hv => ?_
    exact .pure hstore' (.of_yields hv hstands hv.value)
  | .function f, W, m, p, g, h, hplain, hstore, hstands => by
    rw [Stmt.execute, Stmt.events]
    refine (runs_declareFunction hstore hstands hplain h).bind_none fun W' _ m' hstore' hmoved => ?_
    exact .pure hstore' hmoved
  | .classOf c, W, m, p, g, h, hplain, hstore, hstands => by
    rw [Stmt.execute, Stmt.events]
    refine (runs_declareClass hstore hstands hplain h).bind_none fun W' _ m' hstore' hmoved => ?_
    exact .pure hstore' hmoved

/-- Settled statements run well, and their scope comes to the site behind them. -/
theorem Stmt.listRuns {call : Caller} {calls : CallEvents}
    (hcalls : CallsRun uses base call calls) (fuel : Nat) : (body : List Stmt) →
      ∀ {W : World} {m : Machine} {p : Site} {g : Standing}, Stmt.ListSettled uses p body →
      p.here.classOf? = none → Consistent uses base W m.store → W.StandsAt m.scope p g →
      Runs uses base W m (Stmt.executeAll call fuel body) (Stmt.listEvents call calls fuel body)
        (Leaves uses base W m)
  | [], W, m, p, g, _, _, hstore, _ => by
    rw [Stmt.executeAll, Stmt.listEvents]
    exact .pure hstore ⟨rfl, (World.Extends.refl W).but _, trivial⟩
  | s :: rest, W, m, p, g, h, hplain, hstore, hstands => by
    rw [Stmt.executeAll, Stmt.listEvents]
    refine (Stmt.runs hcalls fuel s h.cons.1 hplain hstore hstands).bind
      fun W₁ flow m₁ hstore₁ hfirst => ?_
    cases flow with
    | returned v => exact .pure hstore₁ hfirst.toLeaves
    | normal =>
      obtain ⟨g₁, hstands₁⟩ := hfirst.stands
      rw [← hfirst.scope] at hstands₁
      have hplain₁ : (p.after s).here.classOf? = none := (Site.classOf?_after ..).trans hplain
      refine (Stmt.listRuns hcalls fuel rest h.cons.2 hplain₁ hstore₁ hstands₁).mono
        fun W₂ flow m₂ hrest => ?_
      exact hfirst.toLeaves.trans hrest

end

/-! ## Calls -/

variable (uses) (base) in
/-- Settled bodies run well wherever their site is reached. -/
def BodiesRun (run : List Stmt → Eval Flow) (runEvents : List Stmt → Events) : Prop :=
  ∀ {W : World} {m : Machine} {p : Site} {g : Standing} {body : List Stmt},
    Stmt.ListSettled uses p body → p.here.classOf? = none → Consistent uses base W m.store →
    W.StandsAt m.scope p g →
      Runs uses base W m (run body) (runEvents body) (Leaves uses base W m)

/-- A new scope inside the one that a function closes over stands for the start of its body, as soon
as it has the parameters. -/
theorem Consistent.entering (h : Consistent uses base W m.store) {f : FunctionValue}
    {g : Standing} {captured : List Level} (hg : W f.closure = some g)
    (haligned : W.Aligned (f.closure :: g.enclosing) captured)
    (hf : FunctionSettled uses captured f.declaration.params f.declaration.body)
    {arguments : List Value} (hlength : arguments.length = f.declaration.params.length)
    (hvalues : ∀ v ∈ arguments, v.InOrder uses base W) :
    ∃ W', W.Extends W' ∧ Consistent uses base W' (m.entering f arguments).store
      ∧ ∃ g', W'.StandsAt (m.entering f arguments).scope
        (.ofFunction captured f.declaration.params f.declaration.body) g' := by
  let around := f.closure :: g.enclosing
  let scope : ScopeId := ⟨m.store.scopes.size⟩
  let start : Standing := ⟨.ofBody .empty f.declaration.body, around⟩
  let W₁ := Function.update W scope (some start)
  have hext₁ : W.Extends W₁ := World.extends_update h.unknown start
  have hstore₁ : Consistent uses base W₁ (m.store.addChild f.closure).2 := by
    rw [Store.addChild, h.chain_eq hg]
    exact h.addScope (h.chain_older hg) (constants f.declaration.body)
  have hstore₂ := hstore₁.defineAll (Function.update_self ..) rfl hlength
    (fun v hv => (hvalues v hv).mono hext₁.le) hf.distinct
  rw [Function.update_idem] at hstore₂
  have hext₂ := World.extends_update h.unknown
    ⟨(Site.ofFunction captured f.declaration.params f.declaration.body).here, around⟩
  refine ⟨_, hext₂, hstore₂, _, Function.update_self .., [], around, rfl, rfl, .nil, ?_⟩
  exact haligned.mono hext₂.le

/-- A function in order is called well if settled bodies run well. -/
theorem runs_callFunction {run : List Stmt → Eval Flow} {runEvents : List Stmt → Events}
    (hrun : BodiesRun uses base run runEvents) (hstore : Consistent uses base W m.store)
    {f : FunctionValue} (hf : f.InOrder uses W) {arguments : List Value}
    (hvalues : ∀ v ∈ arguments, v.InOrder uses base W) (line : Nat) :
    Runs uses base W m (callFunction run f arguments line) (functionEvents runEvents f arguments)
      (Yields uses base W m) := by
  have hcall := callFunction_eq run f arguments line m
  by_cases harity : arguments.length = f.declaration.arity
  case neg =>
    rw [if_pos harity] at hcall
    refine .of_error hcall trivial (?_ : Justified uses W _ W)
    rw [functionEvents, if_pos harity]
    exact .refl W
  rw [if_neg (not_not_intro harity)] at hcall
  by_cases hdepth : maxCallDepth ≤ m.depth
  · rw [if_pos hdepth] at hcall
    refine .of_error hcall trivial (?_ : Justified uses W _ W)
    rw [functionEvents, if_neg (not_not_intro harity), if_pos hdepth]
    exact .refl W
  rw [if_neg hdepth] at hcall
  have hevents := functionEvents_eq runEvents harity hdepth
  obtain ⟨g, captured, hg, haligned, hsettled⟩ := hf
  obtain ⟨W₁, hext, hstore₁, g₁, hstands₁⟩ :=
    hstore.entering hg haligned hsettled harity hvalues
  have hbody := hrun hsettled.settled rfl hstore₁ hstands₁
  unfold Runs at hbody
  cases hrun' : run f.declaration.body (m.entering f arguments) with
  | error stop m' =>
    rw [hrun'] at hcall hbody
    obtain ⟨hstop, W', hjust⟩ := hbody
    rw [← hevents] at hjust
    exact .of_error hcall hstop (hjust.weaken hext.le)
  | ok flow m' =>
    rw [hrun'] at hcall hbody
    obtain ⟨W', hjust, hstore', hleaves⟩ := hbody
    have hall := hext.of_new hstore.unknown hleaves.others
    rw [← hevents] at hjust
    cases flow with
    | normal => exact .of_ok hcall (hjust.weaken hext.le) hstore' ⟨rfl, hall, trivial⟩
    | returned v => exact .of_ok hcall (hjust.weaken hext.le) hstore' ⟨rfl, hall, hleaves.flow⟩

/-- A class in order is called well if settled bodies run well. -/
theorem runs_construct {run : List Stmt → Eval Flow} {runEvents : List Stmt → Events}
    (hrun : BodiesRun uses base run runEvents) (hstore : Consistent uses base W m.store)
    {c : ClassValue} (hc : c.InOrder uses W) {arguments : List Value}
    (hvalues : ∀ v ∈ arguments, v.InOrder uses base W) (line : Nat) :
    Runs uses base W m (construct run c arguments line) (classEvents runEvents c arguments)
      (Yields uses base W m) := by
  by_cases harity : arguments.length = c.arity
  case neg =>
    have herror : construct run c arguments line m =
        .error (.fault ⟨.arityMismatch c.arity arguments.length, line⟩) m := by
      rw [construct, if_pos harity]
      rfl
    refine .of_error herror trivial (?_ : Justified uses W _ W)
    rw [classEvents, if_pos harity]
    exact .refl W
  rw [construct, if_neg (not_not_intro harity)]
  refine .of_events (classEvents_eq runEvents harity m) ?_
  have hobject : Runs uses base W m (Eval.withStore fun s => s.addObject c) .none
      fun W' id m' => W' = W ∧ m'.scope = m.scope ∧ base ≤ id.index :=
    .withStore (.refl W) (hstore.addObject hc) ⟨rfl, rfl, hstore.count⟩
  refine hobject.bind fun W₁ id m₁ hstore₁ hpost => ?_
  obtain ⟨rfl, hscope, hid⟩ := hpost
  rw [initializerEvents]
  cases hinit : c.initializer? with
  | none => exact .pure hstore₁ ⟨hscope, .refl _, hid⟩
  | some method =>
    refine (runs_bindMethod hstore₁ hc hinit hid).bind fun W₂ f m₂ hstore₂ hf => ?_
    refine (runs_callFunction hrun hstore₂ hf.value
      (fun v hv => (hvalues v hv).mono hf.extends_.le) line).bind_none
      fun W₃ v m₃ hstore₃ hv => ?_
    exact .pure hstore₃ ⟨hv.scope.trans (hf.scope.trans hscope), hf.extends_.trans hv.extends_, hid⟩

/-- Bodies run well if the calls in them do. -/
theorem bodiesRun {call : Caller} {calls : CallEvents} (hcalls : CallsRun uses base call calls)
    (fuel : Nat) : BodiesRun uses base (fun body => Stmt.executeAll call fuel body)
      fun body => Stmt.listEvents call calls fuel body :=
  fun h hplain hstore hstands => Stmt.listRuns hcalls fuel _ h hplain hstore hstands

/-- Calls run well, however much fuel there is. -/
theorem callsRun (fuel : Nat) : CallsRun uses base (callAtFuel fuel) (callEventsAtFuel fuel) := by
  induction fuel with
  | zero => exact fun _ _ _ _ => .throw trivial
  | succ fuel ih =>
    intro W m f arguments line hstore hf hvalues
    rw [callAtFuel, callEventsAtFuel]
    cases f with
    | function f => exact runs_callFunction (bodiesRun ih fuel) hstore hf hvalues line
    | classValue c => exact runs_construct (bodiesRun ih fuel) hstore hf hvalues line
    | _ => exact .throw trivial

/-! ## Programs -/

/-- Before a run nothing is known of scopes, and all objects are older than the run. -/
theorem Consistent.init (uses : List Use) (s : Store) :
    Consistent uses s.objects.size (fun _ => none) s where
  scopes := nofun
  objects := by
    intro id o hbase ho
    rw [Store.object?, Array.getElem?_eq_none hbase] at ho
    cases ho
  count := Nat.le_refl _

/-- A well-formed program without issues runs well from its start, whatever was run before. -/
theorem Program.runs {program : Program} (hwf : program.wellFormed = true)
    (hclean : program.scopeIssues = []) (fuel : Nat) (m : Machine) :
    ∃ W, Runs program.uses m.store.objects.size W m.restart
      (Stmt.executeAll (callAtFuel fuel) fuel program.declarations)
      (fun _ => program.eventsAtFuel fuel m)
      (Leaves program.uses m.store.objects.size W m.restart) := by
  have hinit := Consistent.init program.uses m.store
  have hstore := hinit.addScope (List.forall_mem_nil _) (constants program.declarations)
  refine ⟨_, Stmt.listRuns (p := .top program.declarations) (callsRun fuel) fuel _ ?_ rfl hstore
    ⟨Function.update_self .., [], [], rfl, rfl, .nil, .nil⟩⟩
  exact Program.listSettled hwf hclean

end Quill
