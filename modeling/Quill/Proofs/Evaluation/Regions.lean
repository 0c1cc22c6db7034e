import Quill.Proofs.Scoping.Events

/-!
# What a run reaches

A run begins with a fresh global scope, but scopes and objects of earlier runs are still in the
store. It reaches none of them: all it can get hold of are scopes and objects made since it began,
and functions that it has declared. A `Region` says this with two numbers, from which on scopes and
objects belong to the run, and a property of its functions.

`Store.Within` states it of a store, and each operation of the store keeps it.
-/

namespace Quill

namespace Store

/-- A new scope binds nothing, and the others bind what they have bound. -/
theorem own?_addScope_eq (s : Store) (around : List ScopeId) (id : ScopeId) (name : String) :
    (s.addScope around).2.own? id name =
      if id.index = s.scopes.size then none else s.own? id name := by
  simp only [own?, addScope, Array.getElem?_push]
  by_cases hnew : id.index = s.scopes.size
  · rw [if_pos hnew, if_pos hnew]
    rfl
  · rw [if_neg hnew, if_neg hnew]

/-- A new scope is inside of the given ones, and the others are where they were. -/
theorem enclosing_addScope_eq (s : Store) (around : List ScopeId) (id : ScopeId) :
    (s.addScope around).2.enclosing id =
      if id.index = s.scopes.size then around else s.enclosing id := by
  simp only [enclosing, addScope, Array.getElem?_push]
  by_cases hnew : id.index = s.scopes.size
  · rw [if_pos hnew, if_pos hnew]
  · rw [if_neg hnew, if_neg hnew]

end Store

/-- The part of a store that belongs to a run. -/
structure Region where
  /-- What holds of the functions that the run declares. -/
  functions : FunctionDecl → Prop
  /-- The number of scopes made before. -/
  scopes : Nat
  /-- The number of objects made before. -/
  objects : Nat

variable {R : Region}

/-- The value leads to nothing but the region. -/
def Value.Within (R : Region) : Value → Prop
  | .function f => R.functions f.declaration ∧ R.scopes ≤ f.closure.index
  | .classValue c =>
    (∀ method ∈ c.declaration.methods, R.functions method) ∧ R.scopes ≤ c.scope.index
  | .object id => R.objects ≤ id.index
  | _ => True

/-- A literal is in every region. -/
theorem Value.within_ofLiteral (value : Literal) : (Value.ofLiteral value).Within R := by
  cases value with
  | _ => trivial

/-- The methods of a class in a region are functions of the region. -/
theorem ClassValue.functions_of_method? {c : ClassValue} {name : String} {method : FunctionDecl}
    (h : c.method? name = some method) (hc : (Value.classValue c).Within R) :
    R.functions method :=
  hc.1 method (List.mem_reverse.1 (List.mem_of_find?_eq_some h))

/-- From the scopes and objects of the region, nothing outside is reached. -/
structure Store.Within (R : Region) (s : Store) : Prop where
  scopes_le : R.scopes ≤ s.scopes.size
  objects_le : R.objects ≤ s.objects.size
  own : ∀ {id name v}, R.scopes ≤ id.index → s.own? id name = some v → v.Within R
  enclosing : ∀ {id outer}, R.scopes ≤ id.index → outer ∈ s.enclosing id → R.scopes ≤ outer.index
  classOf : ∀ {id object}, R.objects ≤ id.index → s.object? id = some object →
    (Value.classValue object.classOf).Within R
  field : ∀ {id object name v}, R.objects ≤ id.index → s.object? id = some object →
    object.fields.get? name = some v → v.Within R

namespace Store.Within

variable {s s' : Store} (h : s.Within R)

include h

/-! ## Looking up -/

/-- From a scope of a region outwards there are scopes of the region only. -/
theorem chain {id outer : ScopeId} (hid : R.scopes ≤ id.index) (hmem : outer ∈ s.chain id) :
    R.scopes ≤ outer.index := by
  obtain rfl | houter := List.mem_cons.1 hmem
  · exact hid
  · exact h.enclosing hid houter

/-- A name has values of the region from its scopes. -/
theorem of_get? {id : ScopeId} (hid : R.scopes ≤ id.index) {name : String} {v : Value}
    (hv : s.get? id name = some v) : v.Within R := by
  obtain ⟨outer, hmem, hown⟩ := List.exists_of_findSome?_eq_some hv
  exact h.own (h.chain hid hmem) hown

/-! ## Changing -/

/-- A store with the same scopes and objects is within the same region. -/
theorem congr (hscopes : s'.scopes = s.scopes) (hobjects : s'.objects = s.objects) :
    s'.Within R where
  scopes_le := hscopes ▸ h.scopes_le
  objects_le := hobjects ▸ h.objects_le
  own hid hown := h.own hid (by rwa [Store.own?, hscopes] at hown)
  enclosing hid hmem := h.enclosing hid (by rwa [Store.enclosing, hscopes] at hmem)
  classOf hid hobject := h.classOf hid (by rwa [Store.object?, hobjects] at hobject)
  field hid hobject := h.field hid (by rwa [Store.object?, hobjects] at hobject)

/-- Binding a name to a value of the region keeps the store within it. -/
theorem define {v : Value} (hv : v.Within R) (id : ScopeId) (name : String) :
    (s.define id name v).Within R where
  scopes_le := by simpa using h.scopes_le
  objects_le := h.objects_le
  own := by
    intro other key w hother hown
    rw [Store.own?_define] at hown
    split at hown
    · cases hown
      exact hv
    · exact h.own hother hown
  enclosing hother hmem := h.enclosing hother (by rwa [Store.enclosing_define] at hmem)
  classOf := h.classOf
  field := h.field

/-- Binding names to values of the region keeps the store within it. -/
theorem defineAll (id : ScopeId) {bindings : List (String × Value)}
    (hbindings : ∀ binding ∈ bindings, binding.2.Within R) :
    (s.defineAll id bindings).Within R := by
  induction bindings generalizing s with
  | nil => exact h
  | cons binding rest ih =>
    obtain ⟨hfirst, hrest⟩ := List.forall_mem_cons.1 hbindings
    exact ih (h.define hfirst id binding.1) hrest

/-- A scope inside of scopes of the region keeps the store within it. -/
theorem addScope {around : List ScopeId} (haround : ∀ outer ∈ around, R.scopes ≤ outer.index) :
    (s.addScope around).2.Within R where
  scopes_le := by
    rw [Store.size_addScope]
    exact Nat.le_succ_of_le h.scopes_le
  objects_le := h.objects_le
  own := by
    intro id name v hid hown
    rw [Store.own?_addScope_eq] at hown
    split at hown
    · cases hown
    · exact h.own hid hown
  enclosing := by
    intro id outer hid hmem
    rw [Store.enclosing_addScope_eq] at hmem
    split at hmem
    · exact haround outer hmem
    · exact h.enclosing hid hmem
  classOf := h.classOf
  field := h.field

/-- A scope inside of a scope of the region keeps the store within it. -/
theorem addChild {parent : ScopeId} (hparent : R.scopes ≤ parent.index) :
    (s.addChild parent).2.Within R :=
  h.addScope fun _ hmem => h.chain hparent hmem

/-- An object of a class of the region keeps the store within it. -/
theorem addObject {c : ClassValue} (hc : (Value.classValue c).Within R) :
    (s.addObject c).2.Within R where
  scopes_le := h.scopes_le
  objects_le := by
    simp only [Store.addObject, Array.size_push]
    exact Nat.le_succ_of_le h.objects_le
  own := h.own
  enclosing := h.enclosing
  classOf := by
    intro id object hid hobject
    simp only [Store.object?, Store.addObject, Array.getElem?_push] at hobject
    split at hobject
    · cases hobject
      exact hc
    · exact h.classOf hid hobject
  field := by
    intro id object name v hid hobject hfield
    simp only [Store.object?, Store.addObject, Array.getElem?_push] at hobject
    split at hobject
    · cases hobject
      cases hfield
    · exact h.field hid hobject hfield

/-- Setting a field to a value of the region keeps the store within it. -/
theorem setField {v : Value} (hv : v.Within R) (target : ObjectId) (name : String) :
    (s.setField target name v).Within R where
  scopes_le := h.scopes_le
  objects_le := by
    simp only [Store.setField, Array.size_modify]
    exact h.objects_le
  own := h.own
  enclosing := h.enclosing
  classOf := by
    intro id object hid hobject
    simp only [Store.object?, Store.setField, Array.getElem?_modify] at hobject
    split at hobject
    · obtain ⟨old, hold, rfl⟩ := Option.map_eq_some_iff.1 hobject
      have hclass := h.classOf hid hold
      exact hclass
    · exact h.classOf hid hobject
  field := by
    intro id object key w hid hobject hfield
    simp only [Store.object?, Store.setField, Array.getElem?_modify] at hobject
    split at hobject
    · obtain ⟨old, hold, rfl⟩ := Option.map_eq_some_iff.1 hobject
      rw [Bindings.get?_insert] at hfield
      split at hfield
      · cases hfield
        exact hv
      · exact h.field hid hold hfield
    · exact h.field hid hobject hfield

/-- A function of the region that closes over one of its scopes is a value of the region. -/
theorem addFunction {f : FunctionDecl} (hf : R.functions f) {closure : ScopeId}
    (hclosure : R.scopes ≤ closure.index) :
    (s.addFunction f closure).2.Within R ∧
      (Value.function (s.addFunction f closure).1).Within R :=
  ⟨h.congr rfl rfl, hf, hclosure⟩

/-- A class with functions of the region that closes over one of its scopes is a value of the
region. -/
theorem addClass {c : ClassDecl} (hc : ∀ method ∈ c.methods, R.functions method) {scope : ScopeId}
    (hscope : R.scopes ≤ scope.index) :
    (s.addClass c scope).2.Within R ∧ (Value.classValue (s.addClass c scope).1).Within R :=
  ⟨h.congr rfl rfl, hc, hscope⟩

/-- A method of the region bound to one of its objects is a value of the region. -/
theorem bindMethod {c : ClassValue} (hc : (Value.classValue c).Within R) {method : FunctionDecl}
    (hmethod : R.functions method) {receiver : ObjectId} (hreceiver : R.objects ≤ receiver.index) :
    (s.bindMethod c method receiver).2.Within R ∧
      (Value.function (s.bindMethod c method receiver).1).Within R := by
  have hchild := h.addChild hc.2
  have hbound := hchild.define (v := .object receiver) hreceiver (s.addChild c.scope).1 receiverName
  exact hbound.addFunction hmethod h.scopes_le

end Store.Within

/-! ## States -/

/-- The innermost scope belongs to the region, and nothing outside is reached from it. -/
structure Machine.Within (R : Region) (m : Machine) : Prop where
  store : m.store.Within R
  scope : R.scopes ≤ m.scope.index

/-- The region of a run that begins in a state, before anything is declared. -/
def Region.after (functions : FunctionDecl → Prop) (m : Machine) : Region :=
  ⟨functions, m.store.scopes.size, m.store.objects.size⟩

/-- A run begins with a region to itself. -/
theorem Machine.within_restart (functions : FunctionDecl → Prop) (m : Machine) :
    m.restart.Within (.after functions m) where
  scope := Nat.le_refl _
  store :=
    { scopes_le := by
        show m.store.scopes.size ≤ (m.store.addScope []).2.scopes.size
        rw [Store.size_addScope]
        exact Nat.le_succ _
      objects_le := Nat.le_refl _
      own := by
        intro id name v hid hown
        have hnone : m.store.own? id name = none := by
          rw [Store.own?, Array.getElem?_eq_none hid]
        rw [show m.restart.store = (m.store.addScope []).2 from rfl, Store.own?_addScope_eq, hnone,
          ite_self] at hown
        cases hown
      enclosing := by
        intro id outer hid hmem
        have hnone : m.store.enclosing id = [] := by
          rw [Store.enclosing, Array.getElem?_eq_none hid]
        rw [show m.restart.store = (m.store.addScope []).2 from rfl, Store.enclosing_addScope_eq,
          hnone, ite_self] at hmem
        cases hmem
      classOf := by
        intro id object hid hobject
        have hnone : m.store.object? id = none := Array.getElem?_eq_none hid
        cases hnone.symm.trans hobject
      field := by
        intro id object name v hid hobject
        have hnone : m.store.object? id = none := Array.getElem?_eq_none hid
        cases hnone.symm.trans hobject }

/-- The body of a function of the region starts in a state of the region. -/
theorem Machine.Within.entering {m : Machine} (h : m.Within R) {f : FunctionValue}
    (hf : (Value.function f).Within R) {arguments : List Value}
    (harguments : ∀ v ∈ arguments, v.Within R) : (m.entering f arguments).Within R where
  scope := h.store.scopes_le
  store := by
    refine (h.store.addChild hf.2).defineAll _ fun binding hmem => ?_
    exact harguments _ (List.of_mem_zip hmem).2

end Quill
