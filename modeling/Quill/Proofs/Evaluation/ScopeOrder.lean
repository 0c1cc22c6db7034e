import Quill.Proofs.Evaluation.Regions
import Quill.Proofs.Evaluation.Sessions

/-!
# The order of scopes

A scope is made inside of one that is there, or inside of none. So the scopes around it were made
before it, and chains of scopes come to an end (`Store.Nested`, `Store.Nested.chain_decreasing`).

That this stays so needs that code runs only in scopes that have been made, and so do functions and
classes, which close over them: `Store.Ordered` says it of all values in the store. It also says that
functions and classes come from the code. It is an invariant of evaluation (`Store.kept_order`) that
holds of the empty store, and so of all reachable states (`Machine.Reachable.ordered`).
-/

namespace Quill

namespace Store

variable {s s' : Store}

/-! ## Scopes inside of earlier ones -/

/-- Every scope has none around it, or it is directly inside of another one that was made earlier. -/
def Nested (s : Store) : Prop :=
  ∀ id, s.enclosing id = [] ∨
    ∃ parent : ScopeId, parent.index < id.index ∧ s.enclosing id = s.chain parent

/-- Chains lead from each scope to earlier ones. -/
theorem Nested.chain_decreasing (h : s.Nested) (id : ScopeId) :
    (s.chain id).Pairwise fun inner outer => outer.index < inner.index := by
  rcases h id with hnone | ⟨parent, hlt, henclosing⟩
  · rw [chain, hnone]
    exact List.pairwise_singleton _ _
  · have hparent := h.chain_decreasing parent
    rw [chain, henclosing]
    refine List.pairwise_cons.2 ⟨?_, hparent⟩
    intro outer houter
    rcases List.mem_cons.1 houter with rfl | houter
    · exact hlt
    · exact Nat.lt_trans (List.rel_of_pairwise_cons hparent houter) hlt
termination_by id.index

/-- A scope that was not made is inside of nothing. -/
theorem enclosing_eq_nil {id : ScopeId} (h : s.scopes.size ≤ id.index) : s.enclosing id = [] := by
  rw [enclosing, Array.getElem?_eq_none h]

/-- Binding a name moves no scope. -/
theorem Nested.define (h : s.Nested) (id : ScopeId) (name : String) (v : Value) :
    (s.define id name v).Nested := by
  intro other
  simp only [chain, enclosing_define]
  exact h other

/-- A scope that is made inside of an earlier one, or of none, keeps scopes nested. -/
theorem Nested.addScope (h : s.Nested) {around : List ScopeId}
    (haround : around = [] ∨ ∃ parent : ScopeId,
      parent.index < s.scopes.size ∧ around = s.chain parent) :
    (s.addScope around).2.Nested := by
  have hchain : ∀ {parent : ScopeId}, parent.index < s.scopes.size →
      (s.addScope around).2.chain parent = s.chain parent := by
    intro parent hlt
    rw [chain, chain, enclosing_addScope s around hlt]
  intro id
  rcases Nat.lt_trichotomy id.index s.scopes.size with hold | hnew | hbeyond
  · rw [enclosing_addScope s around hold]
    rcases h id with hnone | ⟨parent, hlt, henclosing⟩
    · exact .inl hnone
    · refine .inr ⟨parent, hlt, ?_⟩
      rw [hchain (Nat.lt_trans hlt hold)]
      exact henclosing
  · rw [enclosing_addScope_eq, if_pos hnew]
    rcases haround with hnone | ⟨parent, hlt, hsome⟩
    · exact .inl hnone
    · refine .inr ⟨parent, hnew ▸ hlt, ?_⟩
      rw [hchain hlt]
      exact hsome
  · rw [enclosing_addScope_eq, if_neg (Nat.ne_of_gt hbeyond)]
    exact .inl (enclosing_eq_nil (Nat.le_of_lt hbeyond))

end Store

/-! ## Values that belong to a store -/

/-- The value comes from the code and leads to scopes that have been made. -/
def Value.Known (code : Stmt → Prop) (scopes : Nat) : Value → Prop
  | .function f => f.declaration.Occurs code ∧ f.closure.index < scopes
  | .classValue c => (Stmt.classOf c.declaration).Occurs code ∧ c.scope.index < scopes
  | _ => True

variable {code : Stmt → Prop}

/-- What is known of a store is known of a later one. -/
theorem Value.Known.mono {v : Value} {n n' : Nat} (h : v.Known code n) (hle : n ≤ n') :
    v.Known code n' := by
  cases v with
  | function f => exact ⟨h.1, Nat.lt_of_lt_of_le h.2 hle⟩
  | classValue c => exact ⟨h.1, Nat.lt_of_lt_of_le h.2 hle⟩
  | _ => trivial

/-- Scopes are made inside of earlier ones, and all values that are kept belong to the store. -/
structure Store.Ordered (code : Stmt → Prop) (s : Store) : Prop where
  nested : s.Nested
  own : ∀ {id name v}, s.own? id name = some v → v.Known code s.scopes.size
  classOf : ∀ {id object}, s.object? id = some object →
    (Value.classValue object.classOf).Known code s.scopes.size
  field : ∀ {id object name v}, s.object? id = some object → object.fields.get? name = some v →
    v.Known code s.scopes.size

namespace Store

variable {s s' : Store}

/-- The empty store is ordered. -/
theorem ordered_empty : Store.empty.Ordered code where
  nested _ := .inl rfl
  own := by
    intro id name v hown
    have hnone : Store.empty.own? id name = none := by simp [Store.own?, Store.empty]
    cases hnone.symm.trans hown
  classOf := by
    intro id object hobject
    have hnone : Store.empty.object? id = none := by simp [object?, Store.empty]
    cases hnone.symm.trans hobject
  field := by
    intro id object name v hobject
    have hnone : Store.empty.object? id = none := by simp [object?, Store.empty]
    cases hnone.symm.trans hobject

namespace Ordered

variable (h : s.Ordered code)

include h

/-- A name has values that are known of the store. -/
theorem of_get? {id : ScopeId} {name : String} {v : Value} (hget : s.get? id name = some v) :
    v.Known code s.scopes.size := by
  obtain ⟨outer, -, hown⟩ := List.exists_of_findSome?_eq_some hget
  exact h.own hown

/-- A store with the same scopes and objects is as ordered. -/
theorem congr (hscopes : s'.scopes = s.scopes) (hobjects : s'.objects = s.objects) :
    s'.Ordered code := by
  obtain ⟨scopes, objects, identities⟩ := s
  obtain ⟨scopes', objects', identities'⟩ := s'
  subst hscopes hobjects
  exact ⟨h.nested, h.own, h.classOf, h.field⟩

/-- Binding a name to a value that is known keeps the store ordered. -/
theorem define {v : Value} (hv : v.Known code s.scopes.size) (id : ScopeId) (name : String) :
    (s.define id name v).Ordered code := by
  have hsize : (s.define id name v).scopes.size = s.scopes.size := s.size_define id name v
  exact
    { nested := h.nested.define id name v
      own := by
        intro other key w hown
        rw [own?_define] at hown
        rw [hsize]
        split at hown
        · cases hown
          exact hv
        · exact h.own hown
      classOf := by
        intro _ _ hobject
        rw [hsize]
        exact h.classOf hobject
      field := by
        intro _ _ _ _ hobject hfield
        rw [hsize]
        exact h.field hobject hfield }

/-- A new scope inside of an earlier one, or of none, keeps the store ordered. -/
theorem addScope {around : List ScopeId}
    (haround : around = [] ∨ ∃ parent : ScopeId,
      parent.index < s.scopes.size ∧ around = s.chain parent) :
    (s.addScope around).2.Ordered code := by
  have hsize : s.scopes.size ≤ (s.addScope around).2.scopes.size := by
    rw [size_addScope]
    exact Nat.le_succ _
  exact
    { nested := h.nested.addScope haround
      own := by
        intro id name v hown
        rw [own?_addScope_eq] at hown
        split at hown
        · cases hown
        · exact (h.own hown).mono hsize
      classOf := fun hobject => (h.classOf hobject).mono hsize
      field := fun hobject hfield => (h.field hobject hfield).mono hsize }

/-- A new scope inside of an earlier one keeps the store ordered. -/
theorem addChild {parent : ScopeId} (hparent : parent.index < s.scopes.size) :
    (s.addChild parent).2.Ordered code :=
  h.addScope (.inr ⟨parent, hparent, rfl⟩)

/-- An object of a class that is known keeps the store ordered. -/
theorem addObject {c : ClassValue} (hc : (Value.classValue c).Known code s.scopes.size) :
    (s.addObject c).2.Ordered code where
  nested := h.nested
  own := h.own
  classOf := by
    intro id object hobject
    simp only [object?, Store.addObject, Array.getElem?_push] at hobject
    split at hobject
    · cases hobject
      exact hc
    · exact h.classOf hobject
  field := by
    intro id object name v hobject hfield
    simp only [object?, Store.addObject, Array.getElem?_push] at hobject
    split at hobject
    · cases hobject
      cases hfield
    · exact h.field hobject hfield

/-- Setting a field to a value that is known keeps the store ordered. -/
theorem setField {v : Value} (hv : v.Known code s.scopes.size) (target : ObjectId)
    (name : String) : (s.setField target name v).Ordered code where
  nested := h.nested
  own := h.own
  classOf := by
    intro id object hobject
    simp only [object?, Store.setField, Array.getElem?_modify] at hobject
    split at hobject
    · obtain ⟨old, hold, rfl⟩ := Option.map_eq_some_iff.1 hobject
      have hclass := h.classOf hold
      exact hclass
    · exact h.classOf hobject
  field := by
    intro id object key w hobject hfield
    simp only [object?, Store.setField, Array.getElem?_modify] at hobject
    split at hobject
    · obtain ⟨old, hold, rfl⟩ := Option.map_eq_some_iff.1 hobject
      rw [Bindings.get?_insert] at hfield
      split at hfield
      · cases hfield
        exact hv
      · exact h.field hold hfield
    · exact h.field hobject hfield

/-- Binding a method of a class that is known keeps the store ordered. -/
theorem bindMethod {c : ClassValue} (hc : (Value.classValue c).Known code s.scopes.size)
    (method : FunctionDecl) (receiver : ObjectId) :
    (s.bindMethod c method receiver).2.Ordered code := by
  have hbound := (h.addChild hc.2).define (v := .object receiver) trivial
    (s.addChild c.scope).1 receiverName
  exact hbound.congr rfl rfl

end Ordered

/-- The order of scopes, as an invariant. -/
def order (code : Stmt → Prop) : Invariant where
  holds := Ordered code
  later s s' := s.scopes.size ≤ s'.scopes.size
  value s v := v.Known code s.scopes.size
  place s id := id.index < s.scopes.size
  declarable _ _ _ := True

/-- A new scope is one in which code may run. -/
theorem opens_order {code : Stmt → Prop} (h : s.Ordered code) {around : List ScopeId}
    (haround : around = [] ∨ ∃ parent : ScopeId,
      parent.index < s.scopes.size ∧ around = s.chain parent) :
    (order code).Opens s ⟨s.scopes.size⟩ (s.addScope around).2 where
  step := by
    refine ⟨h.addScope haround, ?_⟩
    show s.scopes.size ≤ (s.addScope around).2.scopes.size
    rw [size_addScope]
    exact Nat.le_succ _
  place := by
    show s.scopes.size < (s.addScope around).2.scopes.size
    rw [size_addScope]
    exact Nat.lt_succ_self _
  declarable _ := trivial

/-- Whatever runs, scopes stay in order. -/
theorem kept_order (code : Stmt → Prop) : (order code).Kept code where
  refl _ := Nat.le_refl _
  trans := Nat.le_trans
  value_later hle hv := hv.mono hle
  place_later hle hid := Nat.lt_of_lt_of_le hid hle
  declarable_later _ _ := trivial
  plain := by
    intro s v hplain
    cases v with
    | function => cases hplain
    | classValue => cases hplain
    | _ => trivial
  read h _ hget := Ordered.of_get? h hget
  field h _ := h.field
  classOf h _ := h.classOf
  occurs hf := hf.1
  closure hf := hf.2
  assign h _ _ hv _ := ⟨Ordered.define h hv _ _, Nat.le_of_eq (size_define _ _ _ _).symm⟩
  declare h _ _ hv _ := ⟨Ordered.define h hv _ _, Nat.le_of_eq (size_define _ _ _ _).symm⟩
  addGlobal h := opens_order h (.inl rfl)
  addChild h hid := opens_order h (.inr ⟨_, hid, rfl⟩)
  addFunction h hid hf := ⟨⟨Ordered.congr h rfl rfl, Nat.le_refl _⟩, hf, hid⟩
  addClass h hid hc := ⟨⟨Ordered.congr h rfl rfl, Nat.le_refl _⟩, hc, hid⟩
  addObject h hc := ⟨⟨Ordered.addObject h hc, Nat.le_refl _⟩, trivial⟩
  bindMethod := by
    intro s c name method id h hc hmethod _
    have hmem := List.mem_reverse.1 (List.mem_of_find?_eq_some hmethod)
    have hsize : (s.bindMethod c method id).2.scopes.size = s.scopes.size + 1 := by
      simp [Store.bindMethod, addChild, addFunction, addIdentity]
    have hlt : s.scopes.size < (s.bindMethod c method id).2.scopes.size :=
      Nat.lt_of_lt_of_eq (Nat.lt_succ_self _) hsize.symm
    exact
      { step := ⟨Ordered.bindMethod h hc method id, Nat.le_of_lt hlt⟩
        value := ⟨.method hc.1 hmem, hlt⟩ }
  setField h _ hv name := ⟨Ordered.setField h hv _ name, Nat.le_refl _⟩

end Store

/-- In a session scopes are made inside of earlier ones, and the current scope has been made. -/
theorem Machine.Reachable.ordered {m : Machine} (h : m.Reachable) :
    m.store.Ordered Stmt.Parsed ∧ m.scope.index < m.store.scopes.size := by
  have hready := h.ready (Store.kept_order Stmt.Parsed) Store.ordered_empty
  exact ⟨hready.holds, hready.place⟩

end Quill
