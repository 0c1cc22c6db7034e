import Quill.Proofs.Evaluation.Pairing

/-!
# Paired states stay paired

A tree and the same tree on other lines are evaluated side by side, from paired states. Whatever the
one does, the other does too: they make the same scopes, objects and identities, print the same
bytes and stop for the same reason. For the trees this is one case for each form of expression and
statement (`Expr.pairs`, `Stmt.pairs`), and for calls an induction on the fuel (`callsPair`), since
paired functions have the same body on other lines.

A run makes a scope of its own first, so two runs begin in paired states whatever was there before,
and `runAtFuel_pairs` follows: neither the state in which a run begins nor the lines of the program
make a difference to what is printed and how the run ends.
-/

namespace Quill

open Eval

variable {P : Pairing}

/-! ## Operators -/

/-- The result, a fault on another line. -/
def mapFault (f : Nat → Nat) : Except Fault Value → Except Fault Value
  | .ok v => .ok v
  | .error fault => .error (fault.mapLine f)

section

variable {v v' w w' : Value}

/-- An operator before an operand fails on the line that goes together with its own. -/
theorem applyUnary_mapLine (hv : v.Paired P v') (operator : Token) :
    applyUnary (operator.mapLine P.line) v' = mapFault P.line (applyUnary operator v) := by
  unfold applyUnary
  rw [Token.kind_mapLine]
  cases operator.kind with
  | symbol s =>
    cases s with
    | minus =>
      cases hv with
      | _ => rfl
    | bang => simp [mapFault, hv.isTruthy_eq]
    | _ => rfl
  | _ => rfl

/-- An operator on numbers fails on the line that goes together with its own. -/
theorem onNumbers_mapLine (hv : v.Paired P v') (hw : w.Paired P w') (line : Nat)
    {f g : Number → Number → Except Fault Value} (h : ∀ a b, g a b = mapFault P.line (f a b)) :
    onNumbers (P.line line) v' w' g = mapFault P.line (onNumbers line v w f) := by
  cases hv with
  | number a =>
    cases hw with
    | number b => exact h a b
    | _ => rfl
  | _ =>
    cases hw with
    | _ => rfl

/-- An operator between operands fails on the line that goes together with its own. -/
theorem applyBinary_mapLine (hv : v.Paired P v') (hw : w.Paired P w') (operator : Token) :
    applyBinary (operator.mapLine P.line) v' w' = mapFault P.line (applyBinary operator v w) := by
  have hnumbers : ∀ f : Number → Number → Value,
      onNumbers (P.line operator.line) v' w' (fun a b => .ok (f a b)) =
        mapFault P.line (onNumbers operator.line v w fun a b => .ok (f a b)) :=
    fun f => onNumbers_mapLine hv hw _ fun _ _ => rfl
  unfold applyBinary
  rw [Token.kind_mapLine, Token.line_mapLine]
  cases operator.kind with
  | symbol s =>
    cases s with
    | plus =>
      cases hv with
      | number a =>
        cases hw with
        | _ => rfl
      | string a =>
        cases hw with
        | _ => rfl
      | _ => rfl
    | slash =>
      apply onNumbers_mapLine hv hw
      intro a b
      split
      · rfl
      · rfl
    | equalEqual => simp [mapFault, hv.same_eq hw]
    | bangEqual => simp [mapFault, hv.same_eq hw]
    | minus => exact hnumbers _
    | star => exact hnumbers _
    | greater => exact hnumbers _
    | greaterEqual => exact hnumbers _
    | less => exact hnumbers _
    | lessEqual => exact hnumbers _
    | _ => rfl
  | _ => rfl

/-- Plain values have neither numbers nor lines in them. -/
theorem Value.Paired.of_isPlain (h : IsPlain (.ok v)) : v.Paired P v := by
  cases v with
  | nil => exact .nil
  | boolean b => exact .boolean b
  | number n => exact .number n
  | string s => exact .string s
  | _ => exact h.elim

/-- Plain results are paired with themselves, on the lines that go together. -/
theorem pairs_ofExcept {result : Except Fault Value} (h : IsPlain result) :
    Pairs P (Value.Paired P) (ofExcept result) (ofExcept (mapFault P.line result)) := by
  cases result with
  | ok v => exact pairs_pure (.of_isPlain h)
  | error fault => exact pairs_throw (.fault fault)

end

/-! ## Expressions -/

/-- Paired values are paired objects, or neither of them is an object. -/
theorem pairs_objectOf {v v' : Value} (hv : v.Paired P v') (line : Nat) :
    Pairs P P.Objects (objectOf v line) (objectOf v' (P.line line)) := by
  cases hv with
  | object hid => exact pairs_pure hid
  | _ => exact pairs_fail .notAnInstance line

/-- A property of paired objects has paired values. -/
theorem pairs_readProperty {id id' : ObjectId} (hid : P.Objects id id') (property : Name) :
    Pairs P (Value.Paired P) (readProperty id property)
      (readProperty id' (property.mapLine P.line)) := by
  have hundefined : Pairs P (Value.Paired P)
      (Eval.fail (.undefinedProperty property.text) property.line)
      (Eval.fail (.undefinedProperty property.text) (P.line property.line)) :=
    pairs_fail _ _
  apply pairs_bind_get
  intro m m' hm
  have hobject := hm.store.object hid
  generalize m.store.object? id = found at hobject
  generalize m'.store.object? id' = found' at hobject
  cases hobject with
  | none => exact hundefined hm
  | @some object object' ho =>
    dsimp only
    rw [Name.text_mapLine]
    have hfield := ho.field property.text
    generalize object.fields.get? property.text = field at hfield
    generalize object'.fields.get? property.text = field' at hfield
    cases hfield with
    | some hv => exact .ok hv hm
    | none =>
      dsimp only
      rw [ho.classOf.method?_eq]
      cases object.classOf.method? property.text with
      | none => exact hundefined hm
      | some method =>
        have hbind : Pairs P (FunctionValue.Paired P)
            (withStore fun s => s.bindMethod object.classOf method id)
            (withStore fun s => s.bindMethod object'.classOf (method.mapLines P.line) id') := by
          apply pairs_withStore
          intro s s' hs
          exact hs.bindMethod ho.classOf method hid
        exact (hbind.bind fun hf => pairs_pure (.function hf)) hm

/-- Calls of paired values with paired arguments come to paired results. -/
def CallsPair (P : Pairing) (call call' : Caller) : Prop :=
  ∀ {f f' : Value} {arguments arguments' : List Value}, f.Paired P f' →
    List.Forall₂ (Value.Paired P) arguments arguments' → ∀ line : Nat,
      Pairs P (Value.Paired P) (call f arguments line) (call' f' arguments' (P.line line))

mutual

/-- An expression and the same one on other lines. -/
theorem Expr.pairs {call call' : Caller} (hcalls : CallsPair P call call') : (e : Expr) →
    Pairs P (Value.Paired P) (e.evaluate call) ((e.mapLines P.line).evaluate call')
  | .literal value line => by
    rw [Expr.mapLines, Expr.evaluate, Expr.evaluate]
    exact pairs_pure (.ofLiteral value)
  | .unary operator operand => by
    rw [Expr.mapLines, Expr.evaluate, Expr.evaluate]
    apply (Expr.pairs hcalls operand).bind
    intro v v' hv
    rw [applyUnary_mapLine hv]
    exact pairs_ofExcept (isPlain_applyUnary operator v)
  | .binary left operator right => by
    rw [Expr.mapLines, Expr.evaluate, Expr.evaluate]
    apply (Expr.pairs hcalls left).bind
    intro v v' hv
    apply (Expr.pairs hcalls right).bind
    intro w w' hw
    rw [applyBinary_mapLine hv hw]
    exact pairs_ofExcept (isPlain_applyBinary operator v w)
  | .group inner => by
    rw [Expr.mapLines, Expr.evaluate, Expr.evaluate]
    exact Expr.pairs hcalls inner
  | .reference name => by
    rw [Expr.mapLines, Expr.evaluate, Expr.evaluate]
    exact pairs_readVariable name.text name.line
  | .assign name value => by
    rw [Expr.mapLines, Expr.evaluate, Expr.evaluate]
    apply (Expr.pairs hcalls value).bind
    intro v v' hv
    apply (pairs_writeVariable name.text hv name.line).bind
    intro _ _ _
    exact pairs_pure hv
  | .call callee arguments line => by
    rw [Expr.mapLines, Expr.evaluate, Expr.evaluate]
    apply (Expr.pairs hcalls callee).bind
    intro f f' hf
    apply (Expr.listPairs hcalls arguments).bind
    intro values values' hvalues
    exact hcalls hf hvalues line
  | .get object property => by
    rw [Expr.mapLines, Expr.evaluate, Expr.evaluate]
    apply (Expr.pairs hcalls object).bind
    intro v v' hv
    apply (pairs_objectOf hv property.line).bind
    intro id id' hid
    exact pairs_readProperty hid property
  | .set object property value => by
    rw [Expr.mapLines, Expr.evaluate, Expr.evaluate]
    apply (Expr.pairs hcalls object).bind
    intro target target' htarget
    apply (pairs_objectOf htarget property.line).bind
    intro id id' hid
    apply (Expr.pairs hcalls value).bind
    intro v v' hv
    have hset : Pairs P Eq (withStore fun s => ((), s.setField id property.text v))
        (withStore fun s => ((), s.setField id' property.text v')) := by
      apply pairs_withStore
      intro s s' hs
      exact ⟨rfl, hs.setField hid property.text hv⟩
    apply hset.bind
    intro _ _ _
    exact pairs_pure hv
  | .this line => by
    rw [Expr.mapLines, Expr.evaluate, Expr.evaluate]
    exact pairs_readVariable receiverName line

/-- Expressions and the same ones on other lines have paired values, one by one. -/
theorem Expr.listPairs {call call' : Caller} (hcalls : CallsPair P call call') :
    (es : List Expr) → Pairs P (List.Forall₂ (Value.Paired P)) (Expr.evaluateAll call es)
      (Expr.evaluateAll call' (Expr.listMapLines P.line es))
  | [] => by
    rw [Expr.listMapLines, Expr.evaluateAll, Expr.evaluateAll]
    exact pairs_pure .nil
  | e :: rest => by
    rw [Expr.listMapLines, Expr.evaluateAll, Expr.evaluateAll]
    apply (Expr.pairs hcalls e).bind
    intro v v' hv
    apply (Expr.listPairs hcalls rest).bind
    intro values values' hvalues
    exact pairs_pure (.cons hv hvalues)

end

/-- An expression that may be missing and the same one on other lines. -/
theorem Expr.optionPairs {call call' : Caller} (hcalls : CallsPair P call call')
    (e : Option Expr) : Pairs P (Value.Paired P) (Expr.evaluateOption call e)
      (Expr.evaluateOption call' (e.map (Expr.mapLines P.line))) := by
  cases e with
  | none => exact pairs_pure .nil
  | some e => exact Expr.pairs hcalls e

/-! ## Statements -/

/-- The statements end in the same way. -/
inductive Flow.Paired (P : Pairing) : Flow → Flow → Prop
  | normal : Paired P .normal .normal
  | returned {v v' : Value} (h : v.Paired P v') : Paired P (.returned v) (.returned v')

/-- A function and the same one on other lines are declared alike. -/
theorem pairs_declareFunction (f : FunctionDecl) :
    Pairs P Eq (declareFunction f) (declareFunction (f.mapLines P.line)) := by
  apply pairs_bind_get
  intro m m' hm
  have hadd : Pairs P (FunctionValue.Paired P) (withStore fun s => s.addFunction f m.scope)
      (withStore fun s => s.addFunction (f.mapLines P.line) m'.scope) := by
    apply pairs_withStore
    intro s s' hs
    exact hs.addFunction f hm.scope
  have hall := hadd.bind fun hf => pairs_declareVariable f.name.text (.function hf)
  rw [FunctionDecl.name_mapLines]
  exact hall hm

/-- A class and the same one on other lines are declared alike. -/
theorem pairs_declareClass (c : ClassDecl) :
    Pairs P Eq (declareClass c) (declareClass (c.mapLines P.line)) := by
  apply pairs_bind_get
  intro m m' hm
  have hadd : Pairs P (ClassValue.Paired P) (withStore fun s => s.addClass c m.scope)
      (withStore fun s => s.addClass (c.mapLines P.line) m'.scope) := by
    apply pairs_withStore
    intro s s' hs
    exact hs.addClass c hm.scope
  have hall := hadd.bind fun hc => pairs_declareVariable c.name.text (.classValue hc)
  rw [ClassDecl.name_mapLines]
  exact hall hm

/-- Both loops go on for as many rounds. -/
theorem pairs_loopAtFuel {condition condition' : Eval Value} {body body' : Eval Flow}
    (hcondition : Pairs P (Value.Paired P) condition condition')
    (hbody : Pairs P (Flow.Paired P) body body') (fuel : Nat) :
    Pairs P (Flow.Paired P) (loopAtFuel condition body fuel)
      (loopAtFuel condition' body' fuel) := by
  induction fuel with
  | zero => exact pairs_throw .unfinished
  | succ fuel ih =>
    apply hcondition.bind
    intro v v' hv
    rw [hv.isTruthy_eq]
    apply pairs_ite Iff.rfl
    · apply hbody.bind
      intro flow flow' hflow
      cases hflow with
      | normal => exact ih
      | returned hv => exact pairs_pure (.returned hv)
    · exact pairs_pure .normal

mutual

/-- A statement and the same one on other lines. -/
theorem Stmt.pairs {call call' : Caller} (hcalls : CallsPair P call call') (fuel : Nat) :
    (s : Stmt) → Pairs P (Flow.Paired P) (s.execute call fuel)
      ((s.mapLines P.line).execute call' fuel)
  | .expression value => by
    rw [Stmt.mapLines, Stmt.execute, Stmt.execute]
    apply (Expr.pairs hcalls value).bind
    intro _ _ _
    exact pairs_pure .normal
  | .print value => by
    rw [Stmt.mapLines, Stmt.execute, Stmt.execute]
    apply (Expr.pairs hcalls value).bind
    intro v v' hv
    apply (pairs_printLine hv).bind
    intro _ _ _
    exact pairs_pure .normal
  | .declare name initial => by
    rw [Stmt.mapLines, Stmt.execute, Stmt.execute]
    apply (Expr.optionPairs hcalls initial).bind
    intro v v' hv
    apply (pairs_declareVariable name.text hv).bind
    intro _ _ _
    exact pairs_pure .normal
  | .block body => by
    rw [Stmt.mapLines, Stmt.execute, Stmt.execute]
    apply pairs_bind_get
    intro m m' hm
    refine ((pairs_newScope hm.scope).bind fun hscope => ?_) hm
    exact pairs_inScope hscope (Stmt.listPairs hcalls fuel body)
  | .branch condition thenBranch none => by
    rw [Stmt.mapLines, Stmt.execute, Stmt.execute]
    apply (Expr.pairs hcalls condition).bind
    intro v v' hv
    rw [hv.isTruthy_eq]
    apply pairs_ite Iff.rfl
    · exact Stmt.pairs hcalls fuel thenBranch
    · exact pairs_pure .normal
  | .branch condition thenBranch (some elseBranch) => by
    rw [Stmt.mapLines, Stmt.execute, Stmt.execute]
    apply (Expr.pairs hcalls condition).bind
    intro v v' hv
    rw [hv.isTruthy_eq]
    apply pairs_ite Iff.rfl
    · exact Stmt.pairs hcalls fuel thenBranch
    · exact Stmt.pairs hcalls fuel elseBranch
  | .loop condition body => by
    rw [Stmt.mapLines, Stmt.execute, Stmt.execute]
    exact pairs_loopAtFuel (Expr.pairs hcalls condition) (Stmt.pairs hcalls fuel body) fuel
  | .leave line value => by
    rw [Stmt.mapLines, Stmt.execute, Stmt.execute]
    apply (Expr.optionPairs hcalls value).bind
    intro v v' hv
    exact pairs_pure (.returned hv)
  | .function f => by
    rw [Stmt.mapLines, Stmt.execute, Stmt.execute]
    apply (pairs_declareFunction f).bind
    intro _ _ _
    exact pairs_pure .normal
  | .classOf c => by
    rw [Stmt.mapLines, Stmt.execute, Stmt.execute]
    apply (pairs_declareClass c).bind
    intro _ _ _
    exact pairs_pure .normal

/-- Statements and the same ones on other lines are executed alike, one after another. -/
theorem Stmt.listPairs {call call' : Caller} (hcalls : CallsPair P call call') (fuel : Nat) :
    (body : List Stmt) → Pairs P (Flow.Paired P) (Stmt.executeAll call fuel body)
      (Stmt.executeAll call' fuel (Stmt.listMapLines P.line body))
  | [] => by
    rw [Stmt.listMapLines, Stmt.executeAll, Stmt.executeAll]
    exact pairs_pure .normal
  | s :: rest => by
    rw [Stmt.listMapLines, Stmt.executeAll, Stmt.executeAll]
    apply (Stmt.pairs hcalls fuel s).bind
    intro flow flow' hflow
    cases hflow with
    | normal => exact Stmt.listPairs hcalls fuel rest
    | returned hv => exact pairs_pure (.returned hv)

end

/-! ## Calls -/

/-- The bodies of functions are run alike. -/
def RunsPair (P : Pairing) (run run' : List Stmt → Eval Flow) : Prop :=
  ∀ body : List Stmt, Pairs P (Flow.Paired P) (run body) (run' (Stmt.listMapLines P.line body))

section

variable {run run' : List Stmt → Eval Flow} {arguments arguments' : List Value}

/-- Paired functions are called alike. -/
theorem pairs_callFunction (hrun : RunsPair P run run') {f f' : FunctionValue}
    (hf : f.Paired P f') (harguments : List.Forall₂ (Value.Paired P) arguments arguments')
    (line : Nat) :
    Pairs P (Value.Paired P) (callFunction run f arguments line)
      (callFunction run' f' arguments' (P.line line)) := by
  intro m m' hm
  have harity : f'.declaration.arity = f.declaration.arity := by
    rw [hf.declaration, FunctionDecl.arity_mapLines]
  have hbody : f'.declaration.body = Stmt.listMapLines P.line f.declaration.body := by
    rw [hf.declaration, FunctionDecl.body_mapLines]
  have hresult := hrun f.declaration.body (hm.entering hf harguments)
  rw [callFunction_eq, callFunction_eq, harity, ← harguments.length_eq, hm.depth, hbody]
  apply rel_ite Iff.rfl
  · exact .error (.fault ⟨.arityMismatch _ _, line⟩) hm
  apply rel_ite Iff.rfl
  · exact .error (.fault ⟨.stackOverflow, line⟩) hm
  generalize run f.declaration.body (m.entering f arguments) = result at hresult
  generalize run' (Stmt.listMapLines P.line f.declaration.body) (m'.entering f' arguments') =
    result' at hresult
  cases hresult with
  | ok hflow hn =>
    cases hflow with
    | normal => exact .ok .nil (hm.leaving hn)
    | returned hv => exact .ok hv (hm.leaving hn)
  | error stop hn => exact .error stop (hm.leaving hn)

/-- Paired classes are called alike. -/
theorem pairs_construct (hrun : RunsPair P run run') {c c' : ClassValue} (hc : c.Paired P c')
    (harguments : List.Forall₂ (Value.Paired P) arguments arguments') (line : Nat) :
    Pairs P (Value.Paired P) (construct run c arguments line)
      (construct run' c' arguments' (P.line line)) := by
  have hadd : Pairs P P.Objects (withStore fun s => s.addObject c)
      (withStore fun s => s.addObject c') := by
    apply pairs_withStore
    intro s s' hs
    exact ⟨hs.objects, hs.addObject hc⟩
  unfold construct
  rw [hc.arity_eq, ← harguments.length_eq]
  apply pairs_ite Iff.rfl
  · exact pairs_fail _ line
  apply hadd.bind
  intro id id' hid
  unfold ClassValue.initializer?
  rw [hc.method?_eq]
  cases c.method? initializerName with
  | none => exact pairs_pure (.object hid)
  | some method =>
    have hbind : Pairs P (FunctionValue.Paired P)
        (withStore fun s => s.bindMethod c method id)
        (withStore fun s => s.bindMethod c' (method.mapLines P.line) id') := by
      apply pairs_withStore
      intro s s' hs
      exact hs.bindMethod hc method hid
    apply hbind.bind
    intro f f' hf
    apply (pairs_callFunction hrun hf harguments line).bind
    intro _ _ _
    exact pairs_pure (.object hid)

end

/-- With the same fuel, calls of paired values come to paired results. -/
theorem callsPair (fuel : Nat) : CallsPair P (callAtFuel fuel) (callAtFuel fuel) := by
  induction fuel with
  | zero =>
    intro f f' arguments arguments' _ _ line
    exact pairs_throw .unfinished
  | succ fuel ih =>
    intro f f' arguments arguments' hf harguments line
    rw [callAtFuel]
    cases hf with
    | function hf => exact pairs_callFunction (Stmt.listPairs ih fuel) hf harguments line
    | classValue hc => exact pairs_construct (Stmt.listPairs ih fuel) hc harguments line
    | _ => exact pairs_fail .notCallable line

/-! ## Programs -/

/-- The top level of a program and the same one on other lines. -/
theorem pairs_runTopLevel (fuel : Nat) (body : List Stmt) :
    Pairs P Eq (runTopLevel fuel body) (runTopLevel fuel (Stmt.listMapLines P.line body)) := by
  intro m m' hm
  have hbody := Stmt.listPairs (callsPair fuel) fuel body hm
  rw [runTopLevel_eq, runTopLevel_eq]
  generalize Stmt.executeAll (callAtFuel fuel) fuel body m = result at hbody
  generalize Stmt.executeAll (callAtFuel fuel) fuel (Stmt.listMapLines P.line body) m' =
    result' at hbody
  cases hbody with
  | ok hflow hn => exact .ok rfl hn
  | error stop hn => exact .error stop hn

/-- What was printed is passed on alike. -/
theorem Eval.Pairs.flushing {α α' : Type} {R : α → α' → Prop} {x : Eval α} {y : Eval α'}
    (h : Pairs P R x y) : Pairs P R (flushing x) (flushing y) := by
  intro m m' hm
  have haction := h hm
  unfold Eval.flushing
  generalize x m = result at haction
  generalize y m' = result' at haction
  cases haction with
  | @ok a a' n n' ha hn =>
    dsimp only
    rw [P.flush hn.sink]
    cases n.sink.flushFault? with
    | none => exact .ok ha hn
    | some fault => exact .error (.sink fault) hn
  | @error stop n n' hn =>
    have hflush : n'.sink.flushFault? = n.sink.flushFault? := P.flush hn.sink
    cases stop with
    | unfinished => exact .error .unfinished hn
    | fault fault =>
      dsimp only [Stop.mapLine]
      rw [hflush]
      cases n.sink.flushFault? with
      | none => exact .error (.fault fault) hn
      | some found => exact .error (.sink found) hn
    | sink fault =>
      dsimp only [Stop.mapLine]
      rw [hflush]
      cases n.sink.flushFault? with
      | none => exact .error (.sink fault) hn
      | some found => exact .error (.sink found) hn

/-- Two runs begin in paired states: of what was there before, nothing is in reach. -/
theorem Machine.paired_restart {m m' : Machine} (hleft : P.left = m.store.marks)
    (hright : P.right = m'.store.marks) (hsink : P.sinks m.sink m'.sink) :
    m.restart.Paired P m'.restart := by
  have hstart : Aligned P.left.scopes P.right.scopes m.store.scopes.size
      m'.store.scopes.size := by
    rw [hleft, hright]
    exact .start_start
  have hnew : ∀ {id id'}, P.Scopes id id' →
      m.store.scopes.size ≤ id.index ∧ m'.store.scopes.size ≤ id'.index := by
    intro id id' hid
    rw [Pairing.Scopes, hleft, hright] at hid
    exact ⟨hid.le, hid.le'⟩
  refine ⟨?_, hstart, rfl, hsink⟩
  constructor
  case scopes => simpa [Machine.restart, Store.addGlobal] using hstart.succ
  case objects =>
    rw [hleft, hright]
    exact .start_start
  case identities =>
    rw [Pairing.Identities, hleft, hright]
    exact .start_start
  case own =>
    intro id id' hid name
    obtain ⟨hle, hle'⟩ := hnew hid
    rw [Machine.restart, Machine.restart, Store.own?_addGlobal hle, Store.own?_addGlobal hle']
    exact .none
  case enclosing =>
    intro id id' hid
    obtain ⟨hle, hle'⟩ := hnew hid
    rw [Machine.restart, Machine.restart, Store.enclosing_addGlobal hle,
      Store.enclosing_addGlobal hle']
    exact .nil
  case object =>
    intro id id' hid
    rw [Pairing.Objects, hleft, hright] at hid
    have hnone : m.store.object? id = none := Array.getElem?_eq_none hid.le
    have hnone' : m'.store.object? id' = none := Array.getElem?_eq_none hid.le'
    show Option.Rel _ (m.store.object? id) (m'.store.object? id')
    rw [hnone, hnone']
    exact .none

/-- **Runs go together.** A program and the same program on other lines, run from any two states
whose sinks go together, come to the same result up to lines, and their sinks still go together. -/
theorem pairs_runAtFuel {m m' : Machine} (hleft : P.left = m.store.marks)
    (hright : P.right = m'.store.marks) (hsink : P.sinks m.sink m'.sink) (fuel : Nat)
    (program : Program) :
    PairedResult P Eq (runAtFuel fuel program m)
      (runAtFuel fuel (program.mapLines P.line) m') :=
  (pairs_runTopLevel fuel program.declarations).flushing
    (Machine.paired_restart hleft hright hsink)

/-! ## Outcomes -/

/-- Why an action has no value, if it has none, and what its sink holds in the end. -/
def Eval.outcome {α : Type} : EStateM.Result Stop Machine α → Option Stop × Sink
  | .ok _ m => (none, m.sink)
  | .error stop m => (some stop, m.sink)

/-- The runs from two states with the same sink. -/
def Pairing.ofLines (f : Nat → Nat) (m m' : Machine) : Pairing where
  line := f
  left := m.store.marks
  right := m'.store.marks
  sinks := Eq
  write := by
    rintro sink _ rfl bytes
    exact ⟨rfl, rfl⟩
  flush := by
    rintro sink _ rfl
    rfl

/-- On other lines a program prints the same and ends in the same way, but for the line of the fault
that it may end with. -/
theorem outcome_mapLines (f : Nat → Nat) (fuel : Nat) (program : Program) {m m' : Machine}
    (hsink : m.sink = m'.sink) :
    Eval.outcome (runAtFuel fuel (program.mapLines f) m') =
      Prod.map (Option.map (Stop.mapLine f)) id (Eval.outcome (runAtFuel fuel program m)) := by
  have hruns : PairedResult (Pairing.ofLines f m m') Eq (runAtFuel fuel program m)
      (runAtFuel fuel (program.mapLines f) m') :=
    pairs_runAtFuel rfl rfl hsink fuel program
  generalize runAtFuel fuel program m = result at hruns
  generalize runAtFuel fuel (program.mapLines f) m' = result' at hruns
  cases hruns with
  | @ok _ _ n n' _ hn =>
    have hsame : n.sink = n'.sink := hn.sink
    simp [Eval.outcome, hsame]
  | @error stop n n' hn =>
    have hsame : n.sink = n'.sink := hn.sink
    simp [Eval.outcome, hsame, Pairing.ofLines]

end Quill
