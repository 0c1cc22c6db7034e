import Quill.Proofs.Evaluation.InnerScopes
import Quill.Proofs.Evaluation.Independence

/-!
# Braces make no difference

A program and the same program with braces added are run side by side, from states that are the same
up to braces. Whatever the one does, the other does too, and the states stay the same up to braces.

Expressions have no braces in them, so there is one case for each form of expression
(`Expr.braces`). For statements there is one case for each way in which one statement comes from
another (`Stmt.braces`). Under added braces the second run is in an idle scope, and there it comes
to no declaration, because nothing that declares is put into braces and no branch or body of a loop
declares. For calls it is an induction on the fuel (`callsBrace`): the body of a function is run in
a new scope, which both runs make.

`braces_redundant` follows for runs of programs. The braces of the C++ text, around each branch and
each body of a loop, are a case of it (`outcome_braceBodies`).
-/

namespace Quill

open Eval

variable {W : Twinning} {here here' : ScopeId}

/-! ## Operators -/

section

variable {v v' w w' : Value}

/-- Operators before an operand do not tell braced values apart. -/
theorem applyUnary_braced (hv : v.Braced W v') (operator : Token) :
    applyUnary operator v' = applyUnary operator v := by
  unfold applyUnary
  cases operator.kind with
  | symbol s =>
    cases s with
    | minus =>
      cases hv with
      | _ => rfl
    | bang => simp [hv.isTruthy_eq]
    | _ => rfl
  | _ => rfl

/-- Operators on numbers do not tell braced values apart. -/
theorem onNumbers_braced (hv : v.Braced W v') (hw : w.Braced W w') (line : Nat)
    (f : Number → Number → Except Fault Value) :
    onNumbers line v' w' f = onNumbers line v w f := by
  cases hv with
  | number a =>
    cases hw with
    | _ => rfl
  | _ =>
    cases hw with
    | _ => rfl

/-- Operators between operands do not tell braced values apart. -/
theorem applyBinary_braced (hv : v.Braced W v') (hw : w.Braced W w') (operator : Token) :
    applyBinary operator v' w' = applyBinary operator v w := by
  unfold applyBinary
  cases operator.kind with
  | symbol s =>
    cases s with
    | plus =>
      cases hv with
      | number a =>
        cases hw with
        | _ => rfl
      | string a =>
        cases hw with
        | _ => rfl
      | _ => rfl
    | equalEqual => simp [hv.same_eq hw]
    | bangEqual => simp [hv.same_eq hw]
    | minus => exact onNumbers_braced hv hw _ _
    | star => exact onNumbers_braced hv hw _ _
    | slash => exact onNumbers_braced hv hw _ _
    | greater => exact onNumbers_braced hv hw _ _
    | greaterEqual => exact onNumbers_braced hv hw _ _
    | less => exact onNumbers_braced hv hw _ _
    | lessEqual => exact onNumbers_braced hv hw _ _
    | _ => rfl
  | _ => rfl

/-- Plain values have no braces in them. -/
theorem Value.Braced.of_isPlain (h : IsPlain (.ok v)) : v.Braced W v := by
  cases v with
  | nil => exact .nil
  | boolean b => exact .boolean b
  | number n => exact .number n
  | string s => exact .string s
  | _ => exact h.elim

/-- Plain results go together with themselves. -/
theorem braces_ofExcept {result : Except Fault Value} (h : IsPlain result) :
    Braces W here here' Value.Braced (ofExcept result) (ofExcept result) := by
  cases result with
  | ok v => exact braces_pure (.of_isPlain h)
  | error fault => exact braces_throw (.fault fault)

end

/-! ## Expressions -/

/-- Values that go together are the same object, or neither of them is one. -/
theorem braces_objectOf {v v' : Value} (hv : v.Braced W v') (line : Nat) :
    Braces W here here' (fun _ => Eq) (objectOf v line) (objectOf v' line) := by
  cases hv with
  | object id => exact braces_pure rfl
  | _ => exact braces_fail .notAnInstance line

/-- A method is bound to the same receiver in both runs, in a new scope of each. -/
theorem braces_bindMethod {c c' : ClassValue} (hc : c.Braced W c')
    {method method' : FunctionDecl} (hmethod : method.Braced method')
    (hwf : method.wellFormed = true) (receiver : ObjectId) :
    Braces W here here' FunctionValue.Braced (withStore fun s => s.bindMethod c method receiver)
      (withStore fun s => s.bindMethod c' method' receiver) := by
  apply braces_withStore
  intro s s' hs
  exact ⟨_, List.prefix_append _ _, hs.bindMethod hc hmethod hwf receiver⟩

/-- A property of the same object has values that go together. -/
theorem braces_readProperty (id : ObjectId) (property : Name) :
    Braces W here here' Value.Braced (readProperty id property) (readProperty id property) := by
  have hundefined : Braces W here here' Value.Braced
      (Eval.fail (.undefinedProperty property.text) property.line)
      (Eval.fail (.undefinedProperty property.text) property.line) :=
    braces_fail _ _
  apply braces_bind_get
  intro m m' hm
  have hobject := hm.store.object id
  generalize m.store.object? id = found at hobject
  generalize m'.store.object? id = found' at hobject
  cases hobject with
  | none => exact hundefined hm
  | @some object object' ho =>
    dsimp only
    have hfield := ho.field property.text
    generalize object.fields.get? property.text = field at hfield
    generalize object'.fields.get? property.text = field' at hfield
    cases hfield with
    | some hv => exact .ok (List.prefix_refl _) hv hm
    | none =>
      dsimp only
      have hmethod := ho.classOf.method? property.text
      generalize object.classOf.method? property.text = method at hmethod
      generalize object'.classOf.method? property.text = method' at hmethod
      cases hmethod with
      | none => exact hundefined hm
      | some hmethod =>
        refine ((braces_bindMethod ho.classOf hmethod.2 hmethod.1 id).bind fun _ hf => ?_) hm
        exact braces_pure (.function hf)

/-- Calls of values that are the same up to braces, with such arguments, come to such results. -/
def CallsBrace (call call' : Caller) : Prop :=
  ∀ {W : Twinning} {here here' : ScopeId} {f f' : Value} {arguments arguments' : List Value},
    f.Braced W f' → List.Forall₂ (Value.Braced W) arguments arguments' → ∀ line : Nat,
      Braces W here here' Value.Braced (call f arguments line) (call' f' arguments' line)

mutual

/-- An expression comes to the same in both runs. -/
theorem Expr.braces {call call' : Caller} (hcalls : CallsBrace call call') : (e : Expr) →
    ∀ {W : Twinning}, Braces W here here' Value.Braced (e.evaluate call) (e.evaluate call')
  | .literal value line, W => by
    rw [Expr.evaluate, Expr.evaluate]
    exact braces_pure (.ofLiteral value)
  | .unary operator operand, W => by
    rw [Expr.evaluate, Expr.evaluate]
    apply (Expr.braces hcalls operand).bind
    intro W₁ v v' _ hv
    rw [applyUnary_braced hv]
    exact braces_ofExcept (isPlain_applyUnary operator v)
  | .binary left operator right, W => by
    rw [Expr.evaluate, Expr.evaluate]
    apply (Expr.braces hcalls left).bind
    intro W₁ v v' _ hv
    apply (Expr.braces hcalls right).bind
    intro W₂ w w' hW hw
    rw [applyBinary_braced (hv.mono hW) hw]
    exact braces_ofExcept (isPlain_applyBinary operator v w)
  | .group inner, W => by
    rw [Expr.evaluate, Expr.evaluate]
    exact Expr.braces hcalls inner
  | .reference name, W => by
    rw [Expr.evaluate, Expr.evaluate]
    exact braces_readVariable name.text name.line
  | .assign name value, W => by
    rw [Expr.evaluate, Expr.evaluate]
    apply (Expr.braces hcalls value).bind
    intro W₁ v v' _ hv
    apply (braces_writeVariable name.text hv name.line).bind
    intro W₂ _ _ hW _
    exact braces_pure (hv.mono hW)
  | .call callee arguments line, W => by
    rw [Expr.evaluate, Expr.evaluate]
    apply (Expr.braces hcalls callee).bind
    intro W₁ f f' _ hf
    apply (Expr.listBraces hcalls arguments).bind
    intro W₂ values values' hW hvalues
    exact hcalls (hf.mono hW) hvalues line
  | .get object property, W => by
    rw [Expr.evaluate, Expr.evaluate]
    apply (Expr.braces hcalls object).bind
    intro W₁ v v' _ hv
    apply (braces_objectOf hv property.line).bind
    rintro W₂ id _ _ rfl
    exact braces_readProperty id property
  | .set object property value, W => by
    rw [Expr.evaluate, Expr.evaluate]
    apply (Expr.braces hcalls object).bind
    intro W₁ target target' _ htarget
    apply (braces_objectOf htarget property.line).bind
    rintro W₂ id _ _ rfl
    apply (Expr.braces hcalls value).bind
    intro W₃ v v' _ hv
    have hset : Braces W₃ here here' (fun _ => Eq)
        (withStore fun s => ((), s.setField id property.text v))
        (withStore fun s => ((), s.setField id property.text v')) := by
      apply braces_withStore
      intro s s' hs
      exact ⟨W₃, List.prefix_refl _, rfl, hs.setField id property.text hv⟩
    apply hset.bind
    intro W₄ _ _ hW _
    exact braces_pure (hv.mono hW)
  | .this line, W => by
    rw [Expr.evaluate, Expr.evaluate]
    exact braces_readVariable receiverName line

/-- Expressions come to values that go together, one by one. -/
theorem Expr.listBraces {call call' : Caller} (hcalls : CallsBrace call call') :
    (es : List Expr) → ∀ {W : Twinning},
      Braces W here here' (fun W => List.Forall₂ (Value.Braced W)) (Expr.evaluateAll call es)
        (Expr.evaluateAll call' es)
  | [], W => by
    rw [Expr.evaluateAll, Expr.evaluateAll]
    exact braces_pure .nil
  | e :: rest, W => by
    rw [Expr.evaluateAll, Expr.evaluateAll]
    apply (Expr.braces hcalls e).bind
    intro W₁ v v' _ hv
    apply (Expr.listBraces hcalls rest).bind
    intro W₂ values values' hW hvalues
    exact braces_pure (.cons (hv.mono hW) hvalues)

end

/-- An expression that may be missing comes to values that go together. -/
theorem Expr.optionBraces {call call' : Caller} (hcalls : CallsBrace call call')
    (e : Option Expr) : Braces W here here' Value.Braced (Expr.evaluateOption call e)
      (Expr.evaluateOption call' e) := by
  cases e with
  | none => exact braces_pure .nil
  | some e => exact Expr.braces hcalls e

/-! ## Statements -/

/-- The statements end in the same way. -/
inductive Flow.Braced (W : Twinning) : Flow → Flow → Prop
  | normal : Braced W .normal .normal
  | returned {v v' : Value} (h : v.Braced W v') : Braced W (.returned v) (.returned v')

/-- Functions with bodies that go together are declared alike. -/
theorem braces_declareFunction (hhere : W.Twins here here') {f f' : FunctionDecl}
    (hf : f.Braced f') (hwf : f.wellFormed = true) :
    Braces W here here' (fun _ => Eq) (declareFunction f) (declareFunction f') := by
  unfold declareFunction
  rw [hf.name_eq]
  apply braces_bind_get
  intro m m' hm
  have hadd : Braces W here here' FunctionValue.Braced
      (withStore fun s => s.addFunction f m.scope)
      (withStore fun s => s.addFunction f' m'.scope) := by
    apply braces_withStore
    intro s s' hs
    rw [hm.scope, hm.scope']
    exact ⟨W, List.prefix_refl _, hs.addFunction hf hwf hm.stands⟩
  refine (hadd.bind fun hW hf => ?_) hm
  exact braces_declareVariable (hhere.mono hW) f.name.text (.function hf)

/-- Classes with methods that go together are declared alike. -/
theorem braces_declareClass (hhere : W.Twins here here') (name : Name)
    {methods methods' : List FunctionDecl} (hmethods : FunctionDecl.ListBraced methods methods')
    (hwf : FunctionDecl.listWellFormed methods = true) :
    Braces W here here' (fun _ => Eq) (declareClass ⟨name, methods⟩)
      (declareClass ⟨name, methods'⟩) := by
  unfold declareClass
  apply braces_bind_get
  intro m m' hm
  have hadd : Braces W here here' ClassValue.Braced
      (withStore fun s => s.addClass ⟨name, methods⟩ m.scope)
      (withStore fun s => s.addClass ⟨name, methods'⟩ m'.scope) := by
    apply braces_withStore
    intro s s' hs
    rw [hm.scope, hm.scope']
    exact ⟨W, List.prefix_refl _, hs.addClass name hmethods hwf hm.stands⟩
  refine (hadd.bind fun hW hc => ?_) hm
  exact braces_declareVariable (hhere.mono hW) name.text (.classValue hc)

/-- Both loops go on for as many rounds. -/
theorem braces_loopAtFuel {condition condition' : Eval Value} {body body' : Eval Flow}
    (hcondition : ∀ {W' : Twinning}, W <+: W' →
      Braces W' here here' Value.Braced condition condition')
    (hbody : ∀ {W' : Twinning}, W <+: W' → Braces W' here here' Flow.Braced body body')
    (fuel : Nat) :
    Braces W here here' Flow.Braced (loopAtFuel condition body fuel)
      (loopAtFuel condition' body' fuel) := by
  induction fuel generalizing W with
  | zero => exact braces_throw .unfinished
  | succ fuel ih =>
    apply (hcondition (List.prefix_refl _)).bind
    intro W₁ v v' hW₁ hv
    rw [hv.isTruthy_eq]
    apply braces_ite Iff.rfl
    · apply (hbody hW₁).bind
      intro W₂ flow flow' hW₂ hflow
      cases hflow with
      | normal =>
        have hW := hW₁.trans hW₂
        exact ih (fun hW' => hcondition (hW.trans hW')) fun hW' => hbody (hW.trans hW')
      | returned hv => exact braces_pure (.returned hv)
    · exact braces_pure .normal

/-- Braces around one statement do what it does, but in a scope of their own. -/
theorem Stmt.execute_block_singleton (call : Caller) (fuel : Nat) (s : Stmt) :
    (Stmt.block [s]).execute call fuel =
      get >>= fun m => newScope m.scope >>= fun id => inScope id (s.execute call fuel) := by
  have hone : Stmt.executeAll call fuel [s] = s.execute call fuel := by
    rw [Stmt.executeAll]
    funext m
    cases hread : s.execute call fuel m with
    | ok flow n =>
      rw [bind_eq_of_ok hread]
      cases flow with
      | normal => rw [Stmt.executeAll]; rfl
      | returned v => rfl
    | error stop n => rw [bind_eq_of_error hread]
  rw [Stmt.execute, hone]

mutual

/-- A statement comes to the same with braces added. A declaration is only made in a scope that both
runs have. -/
theorem Stmt.braces {call call' : Caller} (hcalls : CallsBrace call call') (fuel : Nat) :
    ∀ {s s' : Stmt}, s.Braced s' → s.wellFormed = true →
      ∀ {W : Twinning} {here here' : ScopeId}, s.isDeclaration = false ∨ W.Twins here here' →
        Braces W here here' Flow.Braced (s.execute call fuel) (s'.execute call' fuel)
  | _, _, .wrap plain inside, hwf, W, here, here', _ => by
    rw [Stmt.execute_block_singleton]
    apply braces_inIdle
    intro W' id' _ _
    exact Stmt.braces hcalls fuel inside hwf (.inl plain)
  | _, _, .expression value, hwf, W, here, here', _ => by
    rw [Stmt.execute, Stmt.execute]
    apply (Expr.braces hcalls value).bind
    intro _ _ _ _ _
    exact braces_pure .normal
  | _, _, .print value, hwf, W, here, here', _ => by
    rw [Stmt.execute, Stmt.execute]
    apply (Expr.braces hcalls value).bind
    intro W₁ v v' _ hv
    apply (braces_printLine hv).bind
    intro _ _ _ _ _
    exact braces_pure .normal
  | _, _, .declare name initial, hwf, W, here, here', hhere => by
    have htwins : W.Twins here here' := hhere.resolve_left (by simp [Stmt.isDeclaration])
    rw [Stmt.execute, Stmt.execute]
    apply (Expr.optionBraces hcalls initial).bind
    intro W₁ v v' hW hv
    apply (braces_declareVariable (htwins.mono hW) name.text hv).bind
    intro _ _ _ _ _
    exact braces_pure .normal
  | _, _, .block inside, hwf, W, here, here', _ => by
    rw [Stmt.wellFormed] at hwf
    rw [Stmt.execute, Stmt.execute]
    apply braces_bind_get
    intro m m' hm
    rw [hm.scope, hm.scope']
    refine ((braces_newScope hm.stands).bind fun _ hscope => ?_) hm
    exact braces_inScope hscope.stands (Stmt.listBraces hcalls fuel inside hwf hscope)
  | _, _, .choice condition inThen, hwf, W, here, here', _ => by
    obtain ⟨hplain, hwfThen⟩ := Stmt.wellFormed_choice hwf
    rw [Stmt.execute, Stmt.execute]
    apply (Expr.braces hcalls condition).bind
    intro W₁ v v' _ hv
    rw [hv.isTruthy_eq]
    apply braces_ite Iff.rfl
    · exact Stmt.braces hcalls fuel inThen hwfThen (.inl hplain)
    · exact braces_pure .normal
  | _, _, .choices condition inThen inElse, hwf, W, here, here', _ => by
    obtain ⟨⟨hplain, hwfThen⟩, hplain', hwfElse⟩ := Stmt.wellFormed_choices hwf
    rw [Stmt.execute, Stmt.execute]
    apply (Expr.braces hcalls condition).bind
    intro W₁ v v' _ hv
    rw [hv.isTruthy_eq]
    apply braces_ite Iff.rfl
    · exact Stmt.braces hcalls fuel inThen hwfThen (.inl hplain)
    · exact Stmt.braces hcalls fuel inElse hwfElse (.inl hplain')
  | _, _, .loop condition inside, hwf, W, here, here', _ => by
    obtain ⟨hplain, hwfBody⟩ := Stmt.wellFormed_loop hwf
    rw [Stmt.execute, Stmt.execute]
    apply braces_loopAtFuel
    · intro W' _
      exact Expr.braces hcalls condition
    · intro W' _
      exact Stmt.braces hcalls fuel inside hwfBody (.inl hplain)
  | _, _, .leave line value, hwf, W, here, here', _ => by
    rw [Stmt.execute, Stmt.execute]
    apply (Expr.optionBraces hcalls value).bind
    intro W₁ v v' _ hv
    exact braces_pure (.returned hv)
  | _, _, .function inside, hwf, W, here, here', hhere => by
    have htwins : W.Twins here here' := hhere.resolve_left (by simp [Stmt.isDeclaration])
    rw [Stmt.wellFormed] at hwf
    rw [Stmt.execute, Stmt.execute]
    apply (braces_declareFunction htwins inside hwf).bind
    intro _ _ _ _ _
    exact braces_pure .normal
  | _, _, .classOf name inside, hwf, W, here, here', hhere => by
    have htwins : W.Twins here here' := hhere.resolve_left (by simp [Stmt.isDeclaration])
    rw [Stmt.wellFormed] at hwf
    rw [Stmt.execute, Stmt.execute]
    apply (braces_declareClass htwins name inside hwf).bind
    intro _ _ _ _ _
    exact braces_pure .normal

/-- Statements that go together are executed alike, one after another. -/
theorem Stmt.listBraces {call call' : Caller} (hcalls : CallsBrace call call') (fuel : Nat) :
    ∀ {body body' : List Stmt}, Stmt.ListBraced body body' → Stmt.listWellFormed body = true →
      ∀ {W : Twinning} {here here' : ScopeId}, W.Twins here here' →
        Braces W here here' Flow.Braced (Stmt.executeAll call fuel body)
          (Stmt.executeAll call' fuel body')
  | _, _, .nil, hwf, W, here, here', hhere => by
    rw [Stmt.executeAll, Stmt.executeAll]
    exact braces_pure .normal
  | _, _, .cons first behind, hwf, W, here, here', hhere => by
    rw [Stmt.listWellFormed, Bool.and_eq_true] at hwf
    rw [Stmt.executeAll, Stmt.executeAll]
    apply (Stmt.braces hcalls fuel first hwf.1 (.inr hhere)).bind
    intro W₁ flow flow' hW hflow
    cases hflow with
    | normal => exact Stmt.listBraces hcalls fuel behind hwf.2 (hhere.mono hW)
    | returned hv => exact braces_pure (.returned hv)

end

/-! ## Calls -/

/-- The bodies of functions come to the same with braces added, in a scope that both runs have
made. -/
def RunsBrace (run run' : List Stmt → Eval Flow) : Prop :=
  ∀ {body body' : List Stmt}, Stmt.ListBraced body body' → Stmt.listWellFormed body = true →
    ∀ {W : Twinning} {here here' : ScopeId}, W.Twins here here' →
      Braces W here here' Flow.Braced (run body) (run' body')

section

variable {run run' : List Stmt → Eval Flow} {arguments arguments' : List Value}

/-- Functions that go together are called alike. -/
theorem braces_callFunction (hrun : RunsBrace run run') {f f' : FunctionValue}
    (hf : f.Braced W f') (harguments : List.Forall₂ (Value.Braced W) arguments arguments')
    (line : Nat) :
    Braces W here here' Value.Braced (callFunction run f arguments line)
      (callFunction run' f' arguments' line) := by
  intro m m' hm
  have hwf := FunctionDecl.listWellFormed_body hf.wellFormed
  have hresult := hrun hf.declaration.listBraced hwf hm.store.twins_new
    (hm.entering hf harguments)
  rw [callFunction_eq, callFunction_eq, hf.declaration.arity_eq, ← harguments.length_eq, hm.depth]
  apply rel_ite Iff.rfl
  · exact .error (.fault ⟨.arityMismatch _ _, line⟩) (List.prefix_refl _) hm
  apply rel_ite Iff.rfl
  · exact .error (.fault ⟨.stackOverflow, line⟩) (List.prefix_refl _) hm
  generalize run f.declaration.body (m.entering f arguments) = result at hresult
  generalize run' f'.declaration.body (m'.entering f' arguments') = result' at hresult
  have hnew := List.prefix_append W [.twin ⟨m.store.scopes.size⟩]
  cases hresult with
  | ok hW hflow hn =>
    have hW' := hnew.trans hW
    cases hflow with
    | normal => exact .ok hW' .nil (hm.leaving hW' hn)
    | returned hv => exact .ok hW' hv (hm.leaving hW' hn)
  | error stop hW hn => exact .error stop (hnew.trans hW) (hm.leaving (hnew.trans hW) hn)

/-- Classes that go together are called alike. -/
theorem braces_construct (hrun : RunsBrace run run') {c c' : ClassValue} (hc : c.Braced W c')
    (harguments : List.Forall₂ (Value.Braced W) arguments arguments') (line : Nat) :
    Braces W here here' Value.Braced (construct run c arguments line)
      (construct run' c' arguments' line) := by
  have hadd : Braces W here here' (fun _ => Eq) (withStore fun s => s.addObject c)
      (withStore fun s => s.addObject c') := by
    apply braces_withStore
    intro s s' hs
    have hid : (s.addObject c).1 = (s'.addObject c').1 := congrArg ObjectId.mk hs.objects.symm
    exact ⟨W, List.prefix_refl _, hid, hs.addObject hc⟩
  unfold construct
  rw [hc.arity_eq, ← harguments.length_eq]
  apply braces_ite Iff.rfl
  · exact braces_fail _ line
  apply hadd.bind
  rintro W₁ id _ hW rfl
  have hmethod := hc.method? initializerName
  unfold ClassValue.initializer?
  generalize c.method? initializerName = method at hmethod
  generalize c'.method? initializerName = method' at hmethod
  cases hmethod with
  | none => exact braces_pure (.object id)
  | some hmethod =>
    apply (braces_bindMethod (hc.mono hW) hmethod.2 hmethod.1 id).bind
    intro W₂ f f' hW₂ hf
    have hvalues := Value.Braced.list_mono harguments (hW.trans hW₂)
    apply (braces_callFunction hrun hf hvalues line).bind
    intro _ _ _ _ _
    exact braces_pure (.object id)

end

/-- With the same fuel, calls of values that are the same up to braces come to such results. -/
theorem callsBrace (fuel : Nat) : CallsBrace (callAtFuel fuel) (callAtFuel fuel) := by
  induction fuel with
  | zero =>
    intro W here here' f f' arguments arguments' _ _ line
    exact braces_throw .unfinished
  | succ fuel ih =>
    intro W here here' f f' arguments arguments' hf harguments line
    have hrun : RunsBrace (Stmt.executeAll (callAtFuel fuel) fuel)
        (Stmt.executeAll (callAtFuel fuel) fuel) := Stmt.listBraces ih fuel
    rw [callAtFuel]
    cases hf with
    | function hf => exact braces_callFunction hrun hf harguments line
    | classValue hc => exact braces_construct hrun hc harguments line
    | _ => exact braces_fail .notCallable line

/-! ## Programs -/

/-- Programs that go together are executed alike at the top level. -/
theorem braces_runTopLevel (fuel : Nat) {body body' : List Stmt}
    (h : Stmt.ListBraced body body') (hwf : Stmt.listWellFormed body = true)
    (hhere : W.Twins here here') :
    Braces W here here' (fun _ => Eq) (runTopLevel fuel body) (runTopLevel fuel body') := by
  intro m m' hm
  have hbody := Stmt.listBraces (callsBrace fuel) fuel h hwf hhere hm
  rw [runTopLevel_eq, runTopLevel_eq]
  generalize Stmt.executeAll (callAtFuel fuel) fuel body m = result at hbody
  generalize Stmt.executeAll (callAtFuel fuel) fuel body' m' = result' at hbody
  cases hbody with
  | ok hW _ hn => exact .ok hW rfl hn
  | error stop hW hn => exact .error stop hW hn

/-- What was printed is passed on alike. -/
theorem Eval.Braces.flushing {α α' : Type} {R : Twinning → α → α' → Prop} {x : Eval α}
    {y : Eval α'} (h : Braces W here here' R x y) :
    Braces W here here' R (flushing x) (flushing y) := by
  intro m m' hm
  have haction := h hm
  unfold Eval.flushing
  generalize x m = result at haction
  generalize y m' = result' at haction
  cases haction with
  | @ok W' a a' n n' hW ha hn =>
    dsimp only
    rw [hn.sink]
    cases n.sink.flushFault? with
    | none => exact .ok hW ha hn
    | some fault => exact .error (.sink fault) hW hn
  | @error W' stop n n' hW hn =>
    cases stop with
    | unfinished => exact .error .unfinished hW hn
    | _ =>
      dsimp only
      rw [hn.sink]
      cases n.sink.flushFault? with
      | none => exact .error _ hW hn
      | some found => exact .error (.sink found) hW hn

/-- What was there before a run makes no difference, but for the sink. -/
theorem outcome_ofSink (fuel : Nat) (program : Program) (m : Machine) :
    Eval.outcome (runAtFuel fuel program m) =
      Eval.outcome (Eval.flushing (runTopLevel fuel program.declarations) (.ofSink m.sink)) := by
  have hsame := @outcome_mapLines id fuel program ⟨.empty, ⟨0⟩, 0, m.sink⟩ m rfl
  have hline : Stop.mapLine id = id := funext Stop.mapLine_id
  rw [Program.mapLines_id, hline, Option.map_id, Prod.map_id] at hsame
  exact hsame

/-- Two runs that begin with nothing but the same sink. -/
theorem Machine.braced_ofSink (sink : Sink) :
    (Machine.ofSink sink).Braced [.twin ⟨0⟩] ⟨0⟩ ⟨0⟩ (Machine.ofSink sink) where
  store := Store.braced_empty.addScope .nil
  scope := rfl
  scope' := rfl
  stands := .inl rfl
  depth := rfl
  sink := rfl

/-- With the same fuel, a program of a shape of the grammar prints the same with braces added and
ends in the same way. -/
theorem outcome_braced {p p' : Program} (h : p.Braced p') (hwf : p.wellFormed = true) (fuel : Nat)
    {m m' : Machine} (hsink : m.sink = m'.sink) :
    Eval.outcome (runAtFuel fuel p' m') = Eval.outcome (runAtFuel fuel p m) := by
  have hglobal : Twinning.Twins [.twin ⟨0⟩] ⟨0⟩ ⟨0⟩ := rfl
  have hruns : BracedResult [.twin ⟨0⟩] ⟨0⟩ ⟨0⟩ (fun _ => Eq)
      (Eval.flushing (runTopLevel fuel p.declarations) (.ofSink m'.sink))
      (Eval.flushing (runTopLevel fuel p'.declarations) (.ofSink m'.sink)) :=
    (braces_runTopLevel fuel h hwf hglobal).flushing (Machine.braced_ofSink m'.sink)
  rw [outcome_ofSink fuel p, outcome_ofSink fuel p', hsink]
  generalize Eval.flushing (runTopLevel fuel p.declarations) _ = result at hruns
  generalize Eval.flushing (runTopLevel fuel p'.declarations) _ = result' at hruns
  cases hruns with
  | ok _ _ hn => rw [Eval.outcome, Eval.outcome, hn.sink]
  | error stop _ hn => rw [Eval.outcome, Eval.outcome, hn.sink]

/-- The braces that the C++ text has make no difference to a run. -/
theorem outcome_braceBodies {p : Program} (hwf : p.wellFormed = true) (fuel : Nat) {m m' : Machine}
    (hsink : m.sink = m'.sink) :
    Eval.outcome (runAtFuel fuel p.braceBodies m') = Eval.outcome (runAtFuel fuel p m) :=
  outcome_braced (Program.braced_braceBodies hwf) hwf fuel hsink

/-- **Redundant braces do not change meaning.** Where a source is read as a program, braces around
any of its statements that are no declarations make no difference to a run: with the same fuel, the
same bytes are printed, and both runs come to a good end, or both stop for the same reason, which
may be that the fuel is used up. So the one finishes if and only if the other does. -/
theorem braces_redundant {source : String} {p p' : Program} (hparse : parse source = .ok p)
    (h : p.Braced p') (fuel : Nat) {m m' : Machine} (hsink : m.sink = m'.sink) :
    Eval.outcome (runAtFuel fuel p' m') = Eval.outcome (runAtFuel fuel p m) :=
  outcome_braced h (spells_of_parse hparse).2 fuel hsink

/-- A function is declared in a block and kept beyond it. The choice around the block is the body of
a loop. -/
def keptFunction : String :=
  "let f; let n = 0; while (n < 2) if (true) \x7b\n" ++
  "  n = n + 1; fn show() \x7b print n; \x7d f = show;\n" ++
  "\x7d\n" ++
  "f();"

/-- With braces around the choice, the function has an idle scope in its chain when it is called. -/
theorem braces_redundant_keptFunction :
    ∃ p, parse keptFunction = .ok p ∧ p.Braced p.braceBodies ∧ p.braceBodies.sexpr ≠ p.sexpr
      ∧ (Eval.outcome (runAtFuel 4 p (.ofSink .unlimited))).2.written = "2\n".toUTF8
      ∧ Eval.outcome (runAtFuel 4 p.braceBodies (.ofSink .unlimited)) =
        Eval.outcome (runAtFuel 4 p (.ofSink .unlimited)) := by
  have hrun : ((parse keptFunction).toOption.map fun p => (decide (p.braceBodies.sexpr = p.sexpr),
      (Eval.outcome (runAtFuel 4 p (.ofSink .unlimited))).2.written)) =
        some (false, "2\n".toUTF8) := by
    decide +kernel
  obtain ⟨p, hsome, hpair⟩ := Option.map_eq_some_iff.1 hrun
  rw [Prod.mk.injEq, decide_eq_false_iff_not] at hpair
  have hparse := parse_eq_ok_of_toOption hsome
  have hbraced := Program.braced_braceBodies (spells_of_parse hparse).2
  exact ⟨p, hparse, hbraced, hpair.1, hpair.2, braces_redundant hparse hbraced 4 rfl⟩

end Quill
