import Quill.Proofs.Evaluation.ScopeOrder
import Quill.Proofs.Tree.Names

/-!
# The scopes of receivers

A scope that binds the receiver's name is made for that: `Store.bindMethod` makes it and binds the
name in it, and nothing is ever declared in it or assigned to in it. So the receiver in a scope stays
what it is, and a scope without one does not get one. `Store.KeepsReceivers` says so of the store
before and the store after, and it is an invariant of evaluation (`Store.kept_receivers`) for code
that neither declares the receiver's name nor assigns to it.
-/

namespace Quill

namespace Store

variable {s s' s'' : Store}

/-! ## From store to store -/

/-- All scopes of the first store have the same scopes around them in the second and the same
receiver, or none as before. -/
structure KeepsReceivers (s s' : Store) : Prop where
  size : s.scopes.size ≤ s'.scopes.size
  enclosing : ∀ {id}, id.index < s.scopes.size → s'.enclosing id = s.enclosing id
  receiver : ∀ {id}, id.index < s.scopes.size →
    s'.own? id receiverName = s.own? id receiverName

namespace KeepsReceivers

/-- Receivers are kept where the scopes stay the same. -/
theorem of_scopes_eq (h : s'.scopes = s.scopes) : s.KeepsReceivers s' where
  size := Nat.le_of_eq (congrArg Array.size h.symm)
  enclosing _ := by rw [Store.enclosing, Store.enclosing, h]
  receiver _ := by rw [own?, own?, h]

/-- A store keeps its own receivers. -/
theorem refl (s : Store) : s.KeepsReceivers s := of_scopes_eq rfl

/-- Receivers are kept from store to store. -/
theorem trans (h : s.KeepsReceivers s') (h' : s'.KeepsReceivers s'') : s.KeepsReceivers s'' where
  size := Nat.le_trans h.size h'.size
  enclosing hid := (h'.enclosing (Nat.lt_of_lt_of_le hid h.size)).trans (h.enclosing hid)
  receiver hid := (h'.receiver (Nat.lt_of_lt_of_le hid h.size)).trans (h.receiver hid)

/-- Binding a name other than the receiver's keeps the receivers. -/
theorem define {name : String} (hname : name ≠ receiverName) (id : ScopeId) (v : Value) :
    s.KeepsReceivers (s.define id name v) where
  size := Nat.le_of_eq (size_define _ _ _ _).symm
  enclosing _ := enclosing_define ..
  receiver _ := by rw [own?_define, if_neg fun h => hname h.2.2]

/-- A new scope keeps the receivers. -/
theorem addScope (s : Store) (around : List ScopeId) :
    s.KeepsReceivers (s.addScope around).2 where
  size := by
    rw [size_addScope]
    exact Nat.le_succ _
  enclosing hid := enclosing_addScope s around hid
  receiver hid := own?_addScope s around hid _

end KeepsReceivers

/-! ## Looking the receiver up -/

/-- Only a scope that has been made binds a name. -/
theorem index_lt_of_own? {id : ScopeId} {name : String} {v : Value}
    (h : s.own? id name = some v) : id.index < s.scopes.size := by
  rw [← Nat.not_le]
  intro hle
  rw [own?, Array.getElem?_eq_none hle] at h
  cases h

/-- What a scope binds is found there. -/
theorem get?_of_own? {id : ScopeId} {name : String} {v : Value} (h : s.own? id name = some v) :
    s.get? id name = some v := by
  rw [get?, chain, List.findSome?_cons, h]

/-- What a scope does not bind is looked up in the one around it. -/
theorem get?_of_inside {inner outer : ScopeId} {name : String}
    (henclosing : s.enclosing inner = s.chain outer) (hown : s.own? inner name = none) :
    s.get? inner name = s.get? outer name := by
  rw [get?, chain, List.findSome?_cons, hown, henclosing, get?]

namespace KeepsReceivers

variable (h : s.KeepsReceivers s') {id : ScopeId} (hid : id.index < s.scopes.size)

include h hid

/-- The scopes around a scope stay the same, all the way out. -/
theorem chain : s'.chain id = s.chain id := by
  rw [Store.chain, Store.chain, h.enclosing hid]

/-- Every scope sees the receiver that it saw before. -/
theorem get? (hnested : s.Nested) : s'.get? id receiverName = s.get? id receiverName := by
  have hown : ∀ outer ∈ s.chain id, s'.own? outer receiverName = s.own? outer receiverName := by
    intro outer houter
    have hle : outer.index ≤ id.index := by
      rcases List.mem_cons.1 houter with rfl | houter
      · exact Nat.le_refl _
      · exact Nat.le_of_lt (List.rel_of_pairwise_cons (hnested.chain_decreasing id) houter)
    exact h.receiver (Nat.lt_of_le_of_lt hle hid)
  rw [Store.get?, Store.get?, h.chain hid]
  generalize s.chain id = scopes at hown ⊢
  induction scopes with
  | nil => rfl
  | cons outer rest ih =>
    obtain ⟨hfirst, hrest⟩ := List.forall_mem_cons.1 hown
    rw [List.findSome?_cons, List.findSome?_cons, hfirst, ih hrest]

end KeepsReceivers

/-! ## The scope of a bound method -/

section

variable (s) (c : ClassValue) (method : FunctionDecl) (receiver : ObjectId)

/-- The method of an object gets a new scope. -/
theorem closure_bindMethod : (s.bindMethod c method receiver).1.closure = ⟨s.scopes.size⟩ := rfl

/-- Binding a method makes one scope. -/
theorem size_bindMethod : (s.bindMethod c method receiver).2.scopes.size = s.scopes.size + 1 := by
  simp [bindMethod, addChild, addFunction, addIdentity]

/-- The new scope binds the receiver and nothing else; the others are what they were. -/
theorem own?_bindMethod (id : ScopeId) (name : String) :
    (s.bindMethod c method receiver).2.own? id name =
      if id.index = s.scopes.size then
        if receiverName = name then some (.object receiver) else none
      else s.own? id name := by
  show ((s.addChild c.scope).2.define ⟨s.scopes.size⟩ receiverName (.object receiver)).own? id name
    = _
  rw [own?_define, addChild, size_addScope, own?_addScope_eq]
  by_cases hnew : id.index = s.scopes.size
  · simp [hnew]
  · simp [hnew, Ne.symm hnew]

/-- In the new scope the receiver is bound to the object. -/
theorem own?_bindMethod_self :
    (s.bindMethod c method receiver).2.own? (s.bindMethod c method receiver).1.closure
      receiverName = some (.object receiver) := by
  rw [own?_bindMethod, closure_bindMethod, if_pos rfl, if_pos rfl]

/-- The new scope stands inside the scope of the class. -/
theorem enclosing_bindMethod (id : ScopeId) :
    (s.bindMethod c method receiver).2.enclosing id =
      if id.index = s.scopes.size then s.chain c.scope else s.enclosing id := by
  show ((s.addChild c.scope).2.define ⟨s.scopes.size⟩ receiverName (.object receiver)).enclosing id
    = _
  rw [enclosing_define, addChild, enclosing_addScope_eq]

/-- Binding a method keeps the receivers that were there before. -/
theorem KeepsReceivers.bindMethod : s.KeepsReceivers (s.bindMethod c method receiver).2 where
  size := by
    rw [size_bindMethod]
    exact Nat.le_succ _
  enclosing hid := by rw [enclosing_bindMethod, if_neg (Nat.ne_of_lt hid)]
  receiver hid := by rw [own?_bindMethod, if_neg (Nat.ne_of_lt hid)]

end

/-! ## Receivers alone in their scopes -/

/-- Where a receiver is bound, nothing else is. -/
def ReceiversAlone (s : Store) : Prop :=
  ∀ id name, (s.own? id receiverName).isSome → (s.own? id name).isSome → name = receiverName

namespace ReceiversAlone

/-- Receivers are still alone where the scopes stay the same. -/
theorem of_scopes_eq (h : s.ReceiversAlone) (heq : s'.scopes = s.scopes) :
    s'.ReceiversAlone := by
  intro id name hreceiver hname
  rw [own?, heq] at hreceiver hname
  exact h _ _ hreceiver hname

/-- No scope of the empty store binds a receiver. -/
theorem empty : Store.empty.ReceiversAlone := by
  intro id name _ hname
  simp [own?, Store.empty] at hname

/-- Something else may be bound where there is no receiver. -/
theorem define (h : s.ReceiversAlone) {id : ScopeId} {name : String}
    (hid : s.own? id receiverName = none) (hname : name ≠ receiverName) (v : Value) :
    (s.define id name v).ReceiversAlone := by
  intro other key hreceiver hkey
  rw [own?_define, if_neg fun h => hname h.2.2] at hreceiver
  rw [own?_define] at hkey
  split at hkey
  · next hsame =>
    have hother : other = id := congrArg ScopeId.mk hsame.1.symm
    rw [hother, hid] at hreceiver
    cases hreceiver
  · exact h _ _ hreceiver hkey

/-- A new scope binds nothing, and so no receiver. -/
theorem addScope (h : s.ReceiversAlone) (around : List ScopeId) :
    (s.addScope around).2.ReceiversAlone := by
  intro id name hreceiver hname
  rw [own?_addScope_eq] at hreceiver hname
  split at hreceiver
  · cases hreceiver
  · next hold =>
    rw [if_neg hold] at hname
    exact h _ _ hreceiver hname

/-- The new scope of a method binds the receiver and nothing else. -/
theorem bindMethod (h : s.ReceiversAlone) (c : ClassValue) (method : FunctionDecl)
    (receiver : ObjectId) : (s.bindMethod c method receiver).2.ReceiversAlone := by
  intro id name hreceiver hname
  rw [own?_bindMethod] at hreceiver hname
  by_cases hnew : id.index = s.scopes.size
  · rw [if_pos hnew] at hname
    split at hname
    · next heq => exact heq.symm
    · cases hname
  · rw [if_neg hnew] at hreceiver hname
    exact h _ _ hreceiver hname

end ReceiversAlone

/-! ## The invariant -/

/-- The scopes of receivers, as an invariant. Names are declared in other scopes only. -/
def receivers (code : Stmt → Prop) : Invariant where
  holds s := s.Ordered code ∧ s.ReceiversAlone
  later := KeepsReceivers
  value s v := v.Known code s.scopes.size
  place s id := id.index < s.scopes.size
  declarable s id _ := id.index < s.scopes.size ∧ s.own? id receiverName = none

variable {code : Stmt → Prop}

/-- A new scope of the store may be declared in, and keeps the receivers. -/
theorem opens_receivers (hs : s.Ordered code ∧ s.ReceiversAlone) {around : List ScopeId}
    (haround : around = [] ∨ ∃ parent : ScopeId,
      parent.index < s.scopes.size ∧ around = s.chain parent) :
    (receivers code).Opens s ⟨s.scopes.size⟩ (s.addScope around).2 where
  step := ⟨⟨hs.1.addScope haround, hs.2.addScope around⟩, .addScope s around⟩
  place := (opens_order hs.1 haround).place
  declarable _ := ⟨(opens_order hs.1 haround).place, own?_addScope_self s around _⟩

/-- What is not the receiver's name is bound only where no receiver is. -/
theorem own?_receiverName_of_owner? (h : s.ReceiversAlone) {id owner : ScopeId} {name : String}
    (hname : name ≠ receiverName) (howner : s.owner? id name = some owner) :
    s.own? owner receiverName = none := by
  rw [← Option.not_isSome_iff_eq_none]
  intro hreceiver
  have hfound := List.find?_some howner
  exact hname (h _ _ hreceiver hfound)

/-- Code that names no receiver keeps the receivers and leaves them alone. -/
theorem kept_receivers (hcode : ¬Targets code receiverName) : (receivers code).Kept code where
  refl := KeepsReceivers.refl
  trans := KeepsReceivers.trans
  value_later h hv := hv.mono h.size
  place_later h hid := Nat.lt_of_lt_of_le hid h.size
  declarable_later h hid := ⟨Nat.lt_of_lt_of_le hid.1 h.size, (h.receiver hid.1).trans hid.2⟩
  plain hplain := (kept_order code).plain hplain
  read h _ hget := h.1.of_get? hget
  field h _ := h.1.field
  classOf h _ := h.1.classOf
  occurs hf := hf.1
  closure hf := hf.2
  assign := by
    intro s id owner name v h _ htarget hv howner
    have hname : name ≠ receiverName := fun heq => hcode (heq ▸ htarget)
    have hfree := own?_receiverName_of_owner? h.2 hname howner
    exact ⟨⟨h.1.define hv _ _, h.2.define hfree hname v⟩, .define hname owner v⟩
  declare := by
    intro s id name v h _ htarget hv hdeclarable
    have hname : name ≠ receiverName := fun heq => hcode (heq ▸ htarget)
    exact ⟨⟨h.1.define hv _ _, h.2.define hdeclarable.2 hname v⟩, .define hname id v⟩
  addGlobal h := opens_receivers h (.inl rfl)
  addChild h hid := opens_receivers h (.inr ⟨_, hid, rfl⟩)
  addFunction h hid hf :=
    ⟨⟨⟨h.1.congr rfl rfl, h.2.of_scopes_eq rfl⟩, .of_scopes_eq rfl⟩, hf, hid⟩
  addClass h hid hc :=
    ⟨⟨⟨h.1.congr rfl rfl, h.2.of_scopes_eq rfl⟩, .of_scopes_eq rfl⟩, hc, hid⟩
  addObject h hc := ⟨⟨⟨h.1.addObject hc, h.2.of_scopes_eq rfl⟩, .of_scopes_eq rfl⟩, trivial⟩
  bindMethod := by
    intro s c name method id h hc hmethod hid
    have hgives := (kept_order code).bindMethod h.1 hc hmethod hid
    exact
      { step := ⟨⟨hgives.step.holds, h.2.bindMethod c method id⟩, .bindMethod s c method id⟩
        value := hgives.value }
  setField h _ hv name :=
    ⟨⟨h.1.setField hv _ name, h.2.of_scopes_eq rfl⟩, .of_scopes_eq rfl⟩

end Store

end Quill
