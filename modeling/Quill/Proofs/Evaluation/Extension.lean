import Quill.Proofs.Evaluation.ScopeOrder

/-!
# How the store grows

Whatever is executed or evaluated, the store goes on from what it was: scopes keep their place among
the others, names stay bound, objects keep their class and their fields. And no scope that is there
gains a name, but for one case: a declaration that is executed binds its own name in the current
scope. Function bodies and blocks declare what they like, but in scopes that they have made.

`Store.Extends` says so of two stores. It is an invariant of evaluation for any store that one begins
with (`Store.kept_extension`), whatever that store is like. That scopes are made inside of earlier ones
is another invariant, `Store.Ordered`, which holds in sessions from their beginning. Together they
are `store_frame`.
-/

namespace Quill

open Eval

/-! ## Extensions of a store -/

/-- The second store goes on from the first: what was there is still there, and where a scope that was
there binds a name that it did not bind, it is one of those that it may gain. -/
structure Store.Extends (gains : ScopeId → String → Prop) (s s' : Store) : Prop where
  scopes : s.scopes.size ≤ s'.scopes.size
  enclosing : ∀ {id}, id.index < s.scopes.size → s'.enclosing id = s.enclosing id
  bound : ∀ {id name}, (s.own? id name).isSome → (s'.own? id name).isSome
  gained : ∀ {id name}, id.index < s.scopes.size → (s'.own? id name).isSome →
    (s.own? id name).isSome ∨ gains id name
  object : ∀ {id object}, s.object? id = some object →
    ∃ object', s'.object? id = some object' ∧ object'.classOf = object.classOf ∧
      ∀ name, object.fields.contains name → object'.fields.contains name

namespace Store

variable {gains : ScopeId → String → Prop} {s s' s'' : Store}

/-- A name is found only where it is bound. -/
theorem own?_of_owner? {id owner : ScopeId} {name : String} (h : s.owner? id name = some owner) :
    (s.own? owner name).isSome := by
  have hfound := List.find?_some h
  exact hfound

/-- Nothing is gained by doing nothing. -/
theorem extends_refl (s : Store) : s.Extends gains s where
  scopes := Nat.le_refl _
  enclosing _ := rfl
  bound h := h
  gained _ h := .inl h
  object h := ⟨_, h, rfl, fun _ hname => hname⟩

namespace Extends

variable (h : s.Extends gains s')

include h

/-- Only scopes and objects count for what is gained. -/
theorem congr (hscopes : s''.scopes = s'.scopes) (hobjects : s''.objects = s'.objects) :
    s.Extends gains s'' where
  scopes := hscopes ▸ h.scopes
  enclosing hid := by
    rw [← h.enclosing hid, Store.enclosing, Store.enclosing, hscopes]
  bound hbound := by
    rw [own?, hscopes]
    exact h.bound hbound
  gained hid hbound := by
    rw [own?, hscopes] at hbound
    exact h.gained hid hbound
  object hobject := by
    rw [object?, hobjects]
    exact h.object hobject

/-- A name that is bound may be bound anew, and so may any name in a scope that was not there. -/
theorem define {id : ScopeId} {name : String}
    (hname : (s'.own? id name).isSome ∨ s.scopes.size ≤ id.index ∨ gains id name) (v : Value) :
    s.Extends gains (s'.define id name v) where
  scopes := by
    rw [size_define]
    exact h.scopes
  enclosing hid := by
    rw [enclosing_define]
    exact h.enclosing hid
  bound hbound := by
    rw [own?_define]
    split
    · rfl
    · exact h.bound hbound
  gained := by
    intro other key hother hbound
    rw [own?_define] at hbound
    split at hbound
    · next hsame =>
      obtain ⟨hindex, -, rfl⟩ := hsame
      obtain rfl : id = other := by
        cases id
        exact congrArg ScopeId.mk hindex
      rcases hname with hown | hnew | hgains
      · exact h.gained hother hown
      · exact absurd hother (Nat.not_lt.2 hnew)
      · exact .inr hgains
    · exact h.gained hother hbound
  object := h.object

/-- A new scope takes nothing from the others. -/
theorem addScope (around : List ScopeId) : s.Extends gains (s'.addScope around).2 where
  scopes := by
    rw [size_addScope]
    exact Nat.le_succ_of_le h.scopes
  enclosing hid := by
    rw [enclosing_addScope s' around (Nat.lt_of_lt_of_le hid h.scopes)]
    exact h.enclosing hid
  bound := by
    intro id name hbound
    have hold := h.bound hbound
    rw [own?_addScope_eq, if_neg]
    · exact hold
    · intro hnew
      rw [own?, Array.getElem?_eq_none (Nat.le_of_eq hnew.symm)] at hold
      cases hold
  gained hid hbound := by
    rw [own?_addScope s' around (Nat.lt_of_lt_of_le hid h.scopes)] at hbound
    exact h.gained hid hbound
  object := h.object

/-- A new object takes nothing from the others. -/
theorem addObject (c : ClassValue) : s.Extends gains (s'.addObject c).2 where
  scopes := h.scopes
  enclosing := h.enclosing
  bound := h.bound
  gained := h.gained
  object := by
    intro id object hobject
    obtain ⟨object', hobject', hsame⟩ := h.object hobject
    refine ⟨object', ?_, hsame⟩
    have hlt : id.index < s'.objects.size := (Array.getElem?_eq_some_iff.1 hobject').1
    simpa [object?, Store.addObject, Array.getElem?_push, Nat.ne_of_lt hlt] using hobject'

/-- Setting a field leaves the class of the object and all its fields. -/
theorem setField (target : ObjectId) (name : String) (v : Value) :
    s.Extends gains (s'.setField target name v) where
  scopes := h.scopes
  enclosing := h.enclosing
  bound := h.bound
  gained := h.gained
  object := by
    intro id object hobject
    obtain ⟨object', hobject', hclass, hfields⟩ := h.object hobject
    by_cases htarget : target.index = id.index
    · refine ⟨{ object' with fields := object'.fields.insert name v }, ?_, hclass, ?_⟩
      · rw [object?] at hobject' ⊢
        rw [Store.setField, Array.getElem?_modify, if_pos htarget, hobject']
        rfl
      · intro key hkey
        rw [Bindings.contains_insert, hfields key hkey, Bool.or_true]
    · refine ⟨object', ?_, hclass, hfields⟩
      rw [object?] at hobject' ⊢
      rw [Store.setField, Array.getElem?_modify, if_neg htarget]
      exact hobject'

/-- Binding a method makes a scope and leaves the others alone. -/
theorem bindMethod (c : ClassValue) (method : FunctionDecl) (receiver : ObjectId) :
    s.Extends gains (s'.bindMethod c method receiver).2 := by
  have hscope : s.Extends gains (s'.addChild c.scope).2 := h.addScope _
  have hbound : s.Extends gains
      ((s'.addChild c.scope).2.define (s'.addChild c.scope).1 receiverName (.object receiver)) :=
    hscope.define (.inr (.inl h.scopes)) _
  exact hbound.congr rfl rfl

end Extends

/-- To go on from a store, as an invariant. -/
def extension (gains : ScopeId → String → Prop) (s : Store) : Invariant where
  holds := s.Extends gains
  later _ _ := True
  value _ _ := True
  place _ _ := True
  declarable _ id name := s.scopes.size ≤ id.index ∨ gains id name

/-- Whatever runs, names are gained only where they may be declared. -/
theorem kept_extension (gains : ScopeId → String → Prop) (s : Store) :
    (s.extension gains).Kept fun _ => True where
  refl _ := trivial
  trans _ _ := trivial
  value_later _ _ := trivial
  place_later _ _ := trivial
  declarable_later _ h := h
  plain _ := trivial
  read _ _ _ := trivial
  field _ _ _ _ := trivial
  classOf _ _ _ := trivial
  occurs _ := .function (.top trivial)
  closure _ := trivial
  assign h _ _ _ howner := ⟨Extends.define h (.inl (own?_of_owner? howner)) _, trivial⟩
  declare h _ _ _ hdeclarable := ⟨Extends.define h (.inr hdeclarable) _, trivial⟩
  addGlobal h :=
    { step := ⟨Extends.addScope h _, trivial⟩
      place := trivial
      declarable := fun _ => .inl h.scopes }
  addChild h _ :=
    { step := ⟨Extends.addScope h _, trivial⟩
      place := trivial
      declarable := fun _ => .inl h.scopes }
  addFunction h _ _ := ⟨⟨Extends.congr h rfl rfl, trivial⟩, trivial⟩
  addClass h _ _ := ⟨⟨Extends.congr h rfl rfl, trivial⟩, trivial⟩
  addObject h _ := ⟨⟨Extends.addObject h _, trivial⟩, trivial⟩
  bindMethod h _ _ _ := ⟨⟨Extends.bindMethod h _ _ _, trivial⟩, trivial⟩
  setField h _ _ name := ⟨Extends.setField h _ name _, trivial⟩

end Store

/-! ## Statements and expressions -/

/-- From any state on, a statement binds no new name but those that it declares in the current scope.
-/
theorem extends_executeAtFuel {gains : ScopeId → String → Prop} (fuel : Nat) (s : Stmt)
    (m : Machine) (hgains : ∀ name ∈ s.declares, gains m.scope name) :
    m.store.Extends gains (ending (executeAtFuel fuel s m)).store :=
  (Invariant.keeps_executeAtFuel (m.store.kept_extension gains) fuel (.top trivial)
    ⟨m.store.extends_refl, trivial⟩ fun name hname => .inr (hgains name hname)).step.holds

/-- From any state on, an expression binds no new name. -/
theorem extends_evaluateAtFuel (fuel : Nat) (e : Expr) (m : Machine) :
    m.store.Extends (fun _ _ => False) (ending (evaluateAtFuel fuel e m)).store :=
  (Invariant.keeps_evaluateAtFuel (m.store.kept_extension _) fuel
    (.effect (.top trivial)) ⟨m.store.extends_refl, trivial⟩).step.holds

/-- **The frame of the store.** In every state of a session scopes are inside of earlier ones, so that
chains lead from scope to ever earlier scope. Executing a statement or evaluating an expression,
whatever it comes to, leaves all scopes in their place, all names bound and all objects with their
class and their fields. No scope gains a name, except that a declaration binds its own name in the
current scope. -/
theorem store_frame {m : Machine} (hm : m.Reachable) :
    m.store.Nested
      ∧ (∀ id, (m.store.chain id).Pairwise fun inner outer => outer.index < inner.index)
      ∧ (∀ s : Stmt, s.Occurs Stmt.Parsed → ∀ fuel,
          m.store.Extends (fun id name => id = m.scope ∧ s.declared? = some name)
              (ending (executeAtFuel fuel s m)).store
            ∧ (ending (executeAtFuel fuel s m)).store.Nested)
      ∧ ∀ e : Expr, e.Occurs Stmt.Parsed → ∀ fuel,
          m.store.Extends (fun _ _ => False) (ending (evaluateAtFuel fuel e m)).store
            ∧ (ending (evaluateAtFuel fuel e m)).store.Nested := by
  have hnested := hm.ordered.1.nested
  refine ⟨hnested, hnested.chain_decreasing, ?_, ?_⟩
  · intro s hs fuel
    have hwf := hs.wellFormed fun _ hparsed => hparsed.wellFormed
    have hend : (ending (executeAtFuel fuel s m)).Reachable := .after hm (.execute hs fuel)
    refine ⟨extends_executeAtFuel fuel s m ?_, hend.ordered.1.nested⟩
    intro name hname
    rw [Stmt.declares_of_wellFormed hwf] at hname
    exact ⟨rfl, Option.mem_toList.1 hname⟩
  · intro e he fuel
    have hend : (ending (evaluateAtFuel fuel e m)).Reachable := .after hm (.evaluate he fuel)
    exact ⟨extends_evaluateAtFuel fuel e m, hend.ordered.1.nested⟩

/-- A program that leaves an object behind, and a function that changes the object and a variable
of the call in which the function was made. -/
def closureSession : String :=
  "class C \x7b fn init(seen) \x7b this.seen = seen; \x7d \x7d let object = C(nil);\n"
    ++ "fn make() \x7b let n = nil;\n"
    ++ "fn next() \x7b n = true; object.seen = n; return object; \x7d return next; \x7d\n"
    ++ "let next = make();"

/-- The call of such a function, as the initial value of a variable. -/
def laterDeclaration : String := "let a = next();"

/-- A declaration later in a session, in a state with five scopes and an object. The call that it
makes adds a scope, and of the scopes that were there the current one gains the declared name. -/
theorem store_frame_declaration :
    ∃ m s, m.Reachable ∧ s.Occurs Stmt.Parsed ∧ s.declared? = some "a"
      ∧ m.store.scopes.size = 5 ∧ m.store.objects.size = 1
      ∧ (ending (executeAtFuel 3 s m)).store.scopes.size = 6
      ∧ (m.store.Extends (fun id name => id = m.scope ∧ s.declared? = some name)
          (ending (executeAtFuel 3 s m)).store
        ∧ (ending (executeAtFuel 3 s m)).store.Nested)
      ∧ ((ending (executeAtFuel 3 s m)).store.own? m.scope "a").isSome = true := by
  have hread : ((parse closureSession).toOption.bind fun first =>
      (parse laterDeclaration).toOption.map fun second =>
        second.declarations.map fun s =>
          let m := ending (runAtFuel 3 first (.ofSink .unlimited))
          let after := (ending (executeAtFuel 3 s m)).store
          (s.declared?, m.store.scopes.size, m.store.objects.size, after.scopes.size,
            (after.own? m.scope "a").isSome)) = some [(some "a", 5, 1, 6, true)] := by
    decide +kernel
  obtain ⟨first, hfirst, hsecond⟩ := Option.bind_eq_some_iff.1 hread
  obtain ⟨second, hprogram, hdeclarations⟩ := Option.map_eq_some_iff.1 hsecond
  obtain ⟨s, hs, hall⟩ := List.map_eq_singleton_iff.1 hdeclarations
  simp only [Prod.mk.injEq] at hall
  obtain ⟨hdeclared, hscopes, hobjects, hafter, hbound⟩ := hall
  have hreachable : (ending (runAtFuel 3 first (.ofSink .unlimited))).Reachable :=
    .run (.start .unlimited) (parse_eq_ok_of_toOption hfirst) 3
  have hoccurs : s.Occurs Stmt.Parsed :=
    .top ⟨_, second, parse_eq_ok_of_toOption hprogram, by rw [hs]; exact List.mem_singleton.2 rfl⟩
  obtain ⟨-, -, hexecute, -⟩ := store_frame hreachable
  exact ⟨_, s, hreachable, hoccurs, hdeclared, hscopes, hobjects, hafter, hexecute s hoccurs 3,
    hbound⟩

end Quill
