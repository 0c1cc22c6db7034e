import Quill.Proofs.Evaluation.Regions

/-!
# Histories of scopes

A tree of scopes begins with the global one, and from there on scopes are made inside of others,
names are defined in them, assigned to and looked up, in any order. A `History` is what has been done
so far, the latest operation first. It says by itself what is bound where, without any store:

* `History.chain`: the scopes around a scope, up to the global one;
* `History.owner?`: the nearest of them in which a name has been defined;
* `History.latest?`: the value of the latest write to a binding. Definitions write to their own scope,
  and assignments to the scope that owned the name when they were performed.

A store on which the operations were performed shows just that (`History.Agrees`), and so the value
of a name is the latest that was written to its owner (`lookup_follows_history`).
-/

namespace Quill

/-- What can be done with scopes. -/
inductive ScopeOperation where
  /-- A scope is made inside another. -/
  | child (parent : ScopeId)
  /-- A name is bound in the scope itself. -/
  | define (scope : ScopeId) (name : String) (value : Value)
  /-- A name is given a new value where it is bound, as the scope sees it. -/
  | assign (scope : ScopeId) (name : String) (value : Value)
  /-- A name is looked up. -/
  | get (scope : ScopeId) (name : String)

namespace ScopeOperation

/-- The scope that the operation is about. -/
def scope : ScopeOperation → ScopeId
  | child parent => parent
  | define scope _ _ => scope
  | assign scope _ _ => scope
  | get scope _ => scope

/-- The store behind the operation. -/
def perform (s : Store) : ScopeOperation → Store
  | child parent => (s.addChild parent).2
  | define scope name value => s.define scope name value
  | assign scope name value => (s.assign scope name value).2
  | get _ _ => s

/-- The operation defines the name in the scope. -/
def defines (id : ScopeId) (name : String) : ScopeOperation → Bool
  | define scope key _ => scope = id ∧ key = name
  | _ => false

end ScopeOperation

/-- Operations that were performed, from the latest to the first. Before the first one there is the
global scope alone. -/
abbrev History := List ScopeOperation

namespace History

/-- The number of scopes. -/
def scopes : History → Nat
  | [] => 1
  | .child _ :: earlier => scopes earlier + 1
  | _ :: earlier => scopes earlier

/-- Every operation is about a scope that had been made by then. -/
def Possible : History → Prop
  | [] => True
  | operation :: earlier => operation.scope.index < scopes earlier ∧ Possible earlier

instance decidablePossible : (h : History) → Decidable h.Possible
  | [] => inferInstanceAs (Decidable True)
  | _ :: earlier =>
    have := decidablePossible earlier
    inferInstanceAs (Decidable (_ ∧ Possible earlier))

/-- The store on which the operations were performed. -/
def store : History → Store
  | [] => Store.empty.addGlobal.2
  | operation :: earlier => operation.perform (store earlier)

/-- A scope and those around it, up to the global one. -/
def chain : History → ScopeId → List ScopeId
  | [], id => [id]
  | .child parent :: earlier, id =>
    if id.index = scopes earlier then id :: chain earlier parent else chain earlier id
  | _ :: earlier, id => chain earlier id

/-- The name has been defined in the scope. -/
def defines (h : History) (id : ScopeId) (name : String) : Bool :=
  h.any (ScopeOperation.defines id name)

/-- The nearest scope in which the name has been defined. -/
def owner? (h : History) (id : ScopeId) (name : String) : Option ScopeId :=
  (h.chain id).find? fun outer => h.defines outer name

end History

/-- What the operation writes to the binding of a name in a scope, performed after others. -/
def ScopeOperation.writes? (earlier : History) (id : ScopeId) (name : String) :
    ScopeOperation → Option Value
  | define scope key value => if scope = id ∧ key = name then some value else none
  | assign scope key value =>
    if earlier.owner? scope key = some id ∧ key = name then some value else none
  | _ => none

namespace History

/-- The value of the latest write to the binding of a name in a scope. -/
def latest? : History → ScopeId → String → Option Value
  | [], _, _ => none
  | operation :: earlier, id, name =>
    (operation.writes? earlier id name).or (latest? earlier id name)

variable {h : History} {id : ScopeId} {name : String}

/-! ## What histories say -/

/-- A name has been defined by the last operation or before it. -/
theorem defines_cons (operation : ScopeOperation) (earlier : History) (id : ScopeId)
    (name : String) :
    defines (operation :: earlier) id name = (operation.defines id name || earlier.defines id name) :=
  rfl

/-- The owner of a name has defined it. -/
theorem defines_of_owner? {owner : ScopeId} (howner : h.owner? id name = some owner) :
    h.defines owner name = true := by
  have hfound := List.find?_some howner
  exact hfound

/-- A name has an owner if some scope of the chain has defined it. -/
theorem isSome_owner?_iff :
    (h.owner? id name).isSome ↔ ∃ outer ∈ h.chain id, h.defines outer name = true :=
  List.find?_isSome

/-- A binding has been written to if the name has been defined in the scope, and not otherwise:
before that no scope owns it. -/
theorem isSome_latest? (h : History) (id : ScopeId) (name : String) :
    (h.latest? id name).isSome = h.defines id name := by
  induction h with
  | nil => rfl
  | cons operation earlier ih =>
    rw [latest?, Option.isSome_or, ih, defines_cons]
    cases operation with
    | child parent => rfl
    | get scope key => rfl
    | define scope key value =>
      by_cases hsame : scope = id ∧ key = name
      · simp [ScopeOperation.writes?, ScopeOperation.defines, hsame]
      · simp [ScopeOperation.writes?, ScopeOperation.defines, hsame]
    | assign scope key value =>
      by_cases hsame : owner? earlier scope key = some id ∧ key = name
      · obtain ⟨howner, rfl⟩ := hsame
        simp [ScopeOperation.writes?, ScopeOperation.defines, defines_of_owner? howner]
      · simp [ScopeOperation.writes?, ScopeOperation.defines, hsame]

/-- What is around a scope has been made. -/
theorem lt_scopes_of_mem_chain (hpossible : h.Possible) (hid : id.index < h.scopes) :
    ∀ outer ∈ h.chain id, outer.index < h.scopes := by
  induction h generalizing id with
  | nil =>
    intro outer houter
    rw [List.mem_singleton.1 houter]
    exact hid
  | cons operation earlier ih =>
    obtain ⟨hscope, hpossible⟩ := hpossible
    cases operation with
    | child parent =>
      intro outer houter
      rw [chain] at houter
      split at houter
      · next hnew =>
        rcases List.mem_cons.1 houter with rfl | houter
        · exact hid
        · exact Nat.lt_succ_of_lt (ih hpossible hscope outer houter)
      · next hold =>
        have hlt : id.index < scopes earlier := by
          rw [scopes] at hid
          omega
        exact Nat.lt_succ_of_lt (ih hpossible hlt outer houter)
    | _ => exact ih hpossible hid

/-- Nothing has been defined in a scope that has not been made. -/
theorem defines_of_le (hpossible : h.Possible) (hid : h.scopes ≤ id.index) (name : String) :
    h.defines id name = false := by
  induction h with
  | nil => rfl
  | cons operation earlier ih =>
    obtain ⟨hscope, hpossible⟩ := hpossible
    cases operation with
    | child parent => exact ih hpossible (Nat.le_of_succ_le hid)
    | define scope key value =>
      have hne : scope ≠ id := by
        rintro rfl
        exact absurd hscope (Nat.not_lt.2 hid)
      rw [defines_cons, ih hpossible hid]
      simp [ScopeOperation.defines, hne]
    | _ => exact ih hpossible hid

end History

/-! ## The store behind a history -/

namespace Store

variable {s : Store}

/-- A definition in a scope that is there changes its own binding and no other. -/
theorem own?_define_eq {id : ScopeId} (hid : id.index < s.scopes.size) (other : ScopeId)
    (name key : String) (value : Value) :
    (s.define id name value).own? other key =
      if id = other ∧ name = key then some value else s.own? other key := by
  by_cases hsame : id = other
  · subst hsame
    rw [own?_define_self s hid]
    simp
  · rw [own?_define_of_ne s (Ne.symm hsame), if_neg fun h => hsame h.1]

/-- An assignment changes the binding that it finds and no other, and none if it finds none. -/
theorem own?_assign {id : ScopeId}
    (hchain : ∀ owner ∈ s.chain id, owner.index < s.scopes.size) (other : ScopeId)
    (name key : String) (value : Value) :
    (s.assign id name value).2.own? other key =
      if s.owner? id name = some other ∧ name = key then some value else s.own? other key := by
  unfold assign
  cases howner : s.owner? id name with
  | none => simp
  | some owner =>
    have hmem : owner ∈ s.chain id := List.mem_of_find?_eq_some howner
    dsimp only
    rw [own?_define_eq (hchain owner hmem)]
    simp

/-- Assigning changes no scopes around any scope. -/
theorem enclosing_assign (id other : ScopeId) (name : String) (value : Value) :
    (s.assign id name value).2.enclosing other = s.enclosing other := by
  unfold assign
  cases s.owner? id name with
  | none => rfl
  | some owner => exact enclosing_define ..

@[simp] theorem size_assign (id : ScopeId) (name : String) (value : Value) :
    (s.assign id name value).2.scopes.size = s.scopes.size := by
  unfold assign
  cases s.owner? id name with
  | none => rfl
  | some owner => exact size_define ..

end Store

/-- The first element that passes is the same for tests that agree on the elements. -/
private theorem find?_eq_of_agree {α : Type} {p q : α → Bool} {l : List α}
    (h : ∀ a ∈ l, p a = q a) : l.find? p = l.find? q := by
  induction l with
  | nil => rfl
  | cons a rest ih =>
    rw [List.find?_cons, List.find?_cons, h a List.mem_cons_self,
      ih fun b hb => h b (List.mem_cons_of_mem a hb)]

namespace History

variable {h : History}

/-- The store is what the history says: so many scopes with these around them, and their bindings
have the values that were written last. -/
structure Agrees (h : History) : Prop where
  size : h.store.scopes.size = h.scopes
  chain : ∀ {id : ScopeId}, id.index < h.scopes → h.store.chain id = h.chain id
  own : ∀ {id : ScopeId}, id.index < h.scopes → ∀ name, h.store.own? id name = h.latest? id name

namespace Agrees

/-- Names are found where the history says. -/
theorem owner? (hagrees : h.Agrees) (hpossible : h.Possible) {id : ScopeId}
    (hid : id.index < h.scopes) (name : String) : h.store.owner? id name = h.owner? id name := by
  have hmade := lt_scopes_of_mem_chain hpossible hid
  rw [Store.owner?, hagrees.chain hid, History.owner?]
  refine find?_eq_of_agree fun outer houter => ?_
  rw [hagrees.own (hmade outer houter), isSome_latest?]

/-- The scopes around a scope are there. -/
theorem chain_made (hagrees : h.Agrees) (hpossible : h.Possible) {id : ScopeId}
    (hid : id.index < h.scopes) :
    ∀ outer ∈ h.store.chain id, outer.index < h.store.scopes.size := by
  rw [hagrees.chain hid, hagrees.size]
  exact lt_scopes_of_mem_chain hpossible hid

/-- The first store is the one on which nothing has been performed. -/
theorem nil : Agrees [] where
  size := rfl
  chain := by
    intro id hid
    obtain ⟨index⟩ := id
    obtain rfl : index = 0 := Nat.lt_one_iff.1 hid
    rfl
  own := by
    intro id hid name
    obtain ⟨index⟩ := id
    obtain rfl : index = 0 := Nat.lt_one_iff.1 hid
    rfl

/-- Making a scope keeps the agreement. -/
theorem child (hagrees : h.Agrees) (hpossible : h.Possible) {parent : ScopeId}
    (hparent : parent.index < h.scopes) : Agrees (.child parent :: h) where
  size := by
    rw [store, ScopeOperation.perform, Store.addChild, Store.size_addScope, hagrees.size, scopes]
  chain := by
    intro id hid
    rw [store, ScopeOperation.perform, Store.addChild, Store.chain, Store.enclosing_addScope_eq,
      hagrees.size, History.chain]
    split
    · rw [hagrees.chain hparent]
    · next hold =>
      have hlt : id.index < h.scopes := by
        rw [scopes] at hid
        omega
      exact hagrees.chain hlt
  own := by
    intro id hid name
    rw [store, ScopeOperation.perform, Store.addChild, Store.own?_addScope_eq, hagrees.size]
    split
    · next hnew =>
      have hnone : h.latest? id name = none := by
        rw [← Option.not_isSome_iff_eq_none, isSome_latest?,
          defines_of_le hpossible (Nat.le_of_eq hnew.symm)]
        exact Bool.false_ne_true
      exact hnone.symm
    · next hold =>
      have hlt : id.index < h.scopes := by
        rw [scopes] at hid
        omega
      exact hagrees.own hlt name

/-- Defining a name keeps the agreement. -/
theorem define (hagrees : h.Agrees) {scope : ScopeId} (hscope : scope.index < h.scopes)
    (name : String) (value : Value) : Agrees (.define scope name value :: h) where
  size := (Store.size_define ..).trans hagrees.size
  chain := by
    intro id hid
    rw [store, ScopeOperation.perform, Store.chain, Store.enclosing_define]
    exact hagrees.chain hid
  own := by
    intro id hid key
    rw [store, ScopeOperation.perform, Store.own?_define_eq (hagrees.size ▸ hscope), latest?,
      ScopeOperation.writes?, hagrees.own hid]
    split <;> rfl

/-- Assigning to a name keeps the agreement, found or not. -/
theorem assign (hagrees : h.Agrees) (hpossible : h.Possible) {scope : ScopeId}
    (hscope : scope.index < h.scopes) (name : String) (value : Value) :
    Agrees (.assign scope name value :: h) where
  size := (Store.size_assign ..).trans hagrees.size
  chain := by
    intro id hid
    rw [store, ScopeOperation.perform, Store.chain, Store.enclosing_assign]
    exact hagrees.chain hid
  own := by
    intro id hid key
    rw [store, ScopeOperation.perform, Store.own?_assign (hagrees.chain_made hpossible hscope),
      hagrees.owner? hpossible hscope, latest?, ScopeOperation.writes?, hagrees.own hid]
    split <;> rfl

end Agrees

/-- After every operation the store is what the history says. -/
theorem agrees (hpossible : h.Possible) : h.Agrees := by
  induction h with
  | nil => exact .nil
  | cons operation earlier ih =>
    obtain ⟨hscope, hpossible⟩ := hpossible
    have hagrees := ih hpossible
    cases operation with
    | child parent => exact hagrees.child hpossible hscope
    | define scope name value => exact hagrees.define hscope name value
    | assign scope name value => exact hagrees.assign hpossible hscope name value
    | get scope name => exact ⟨hagrees.size, hagrees.chain, hagrees.own⟩

end History

/-! ## Lookups and assignments behind a history -/

namespace Store

variable {s : Store} {id : ScopeId} {name : String}

/-- The value of a name is that of its binding in the scope that owns it. -/
theorem get?_eq_bind_owner? : s.get? id name = (s.owner? id name).bind (s.own? · name) := by
  rw [get?, owner?]
  induction s.chain id with
  | nil => rfl
  | cons scope rest ih =>
    rw [List.findSome?_cons, List.find?_cons]
    cases hown : s.own? scope name with
    | none => simpa using ih
    | some v => simpa using hown.symm

/-- An assignment succeeds if some scope owns the name. -/
theorem assign_fst : (s.assign id name value).1 = (s.owner? id name).isSome := by
  unfold assign
  cases s.owner? id name <;> rfl

end Store

namespace History

variable {h : History} {id : ScopeId} {name : String}

/-- A scope that owns a name knows the latest value. -/
theorem exists_latest? {owner : ScopeId} (howner : h.owner? id name = some owner) :
    ∃ value, h.latest? owner name = some value := by
  rw [← Option.isSome_iff_exists, isSome_latest?]
  exact defines_of_owner? howner

/-- The value of a name is the one that was written last to the nearest scope that defines it. -/
theorem Agrees.get? (hagrees : h.Agrees) (hpossible : h.Possible) (hid : id.index < h.scopes) :
    h.store.get? id name = (h.owner? id name).bind (h.latest? · name) := by
  rw [Store.get?_eq_bind_owner?, hagrees.owner? hpossible hid]
  cases howner : h.owner? id name with
  | none => rfl
  | some owner =>
    have hmade := lt_scopes_of_mem_chain hpossible hid owner (List.mem_of_find?_eq_some howner)
    exact hagrees.own hmade name

/-- A name has a value if it has an owner. -/
theorem Agrees.isSome_get? (hagrees : h.Agrees) (hpossible : h.Possible)
    (hid : id.index < h.scopes) :
    (h.store.get? id name).isSome = (h.owner? id name).isSome := by
  rw [hagrees.get? hpossible hid]
  cases howner : h.owner? id name with
  | none => rfl
  | some owner =>
    obtain ⟨value, hvalue⟩ := exists_latest? howner
    simp [hvalue]

end History

/-- After any operations on scopes, a scope knows a name if the name has been defined in one of the
scopes around it, and it knows the value that was written last to the nearest of these. It can then
assign to the name, and that changes this one binding; otherwise it cannot, and nothing changes. -/
theorem lookup_follows_history (h : History) (hpossible : h.Possible) {id : ScopeId}
    (hid : id.index < h.scopes) (name : String) :
    ((h.store.get? id name).isSome ↔ ∃ outer ∈ h.chain id, h.defines outer name = true) ∧
      (∀ owner, h.owner? id name = some owner → ∃ value,
        h.latest? owner name = some value ∧ h.store.get? id name = some value) ∧
      ∀ value,
        ((h.store.assign id name value).1 = true ↔ (h.store.get? id name).isSome) ∧
        (∀ owner, h.owner? id name = some owner → ∀ other key,
          (h.store.assign id name value).2.own? other key =
            if owner = other ∧ name = key then some value else h.store.own? other key) ∧
        ((h.store.assign id name value).1 = false → (h.store.assign id name value).2 = h.store) := by
  have hagrees := History.agrees hpossible
  have howner := hagrees.owner? hpossible hid name
  have hknown : (h.store.get? id name).isSome = (h.owner? id name).isSome :=
    hagrees.isSome_get? hpossible hid
  refine ⟨?found, ?latest, fun value => ⟨?succeeds, ?changes, ?fails⟩⟩
  case found => rw [hknown, History.isSome_owner?_iff]
  case latest =>
    intro owner hsome
    obtain ⟨value, hvalue⟩ := History.exists_latest? hsome
    refine ⟨value, hvalue, ?_⟩
    rw [hagrees.get? hpossible hid, hsome]
    exact hvalue
  case succeeds => rw [Store.assign_fst, howner, hknown]
  case changes =>
    intro owner hsome other key
    rw [Store.own?_assign (hagrees.chain_made hpossible hid), howner, hsome]
    simp only [Option.some.injEq]
  case fails =>
    intro hfails
    rw [Store.assign_fst, Option.isSome_eq_false_iff, Option.isNone_iff_eq_none] at hfails
    rw [Store.assign, hfails]

/-- Two scopes inside the global one, and the second sees what the first wrote to the global `x` until
it has an `x` of its own. -/
def shadowingHistory : History :=
  [.assign ⟨2⟩ "x" (.string "third"), .define ⟨2⟩ "x" (.string "second"),
    .assign ⟨1⟩ "x" (.string "first"), .child ⟨0⟩, .child ⟨0⟩, .define ⟨0⟩ "x" .nil]

/-- In this history a name is shadowed, and another is defined nowhere. -/
theorem lookup_follows_shadowingHistory :
    (shadowingHistory.store.get? ⟨1⟩ "x" = some (.string "first")) ∧
      shadowingHistory.store.get? ⟨2⟩ "x" = some (.string "third") ∧
      ((shadowingHistory.store.get? ⟨2⟩ "y").isSome = false) := by
  have hpossible : shadowingHistory.Possible := by decide
  have hid₁ : (⟨1⟩ : ScopeId).index < shadowingHistory.scopes := by decide
  have hid₂ : (⟨2⟩ : ScopeId).index < shadowingHistory.scopes := by decide
  obtain ⟨-, houter, -⟩ := lookup_follows_history shadowingHistory hpossible hid₁ "x"
  obtain ⟨-, hinner, -⟩ := lookup_follows_history shadowingHistory hpossible hid₂ "x"
  obtain ⟨hunknown, -, -⟩ := lookup_follows_history shadowingHistory hpossible hid₂ "y"
  refine ⟨?_, ?_, ?_⟩
  · obtain ⟨value, hvalue, hget⟩ := houter ⟨0⟩ (by decide)
    rw [hget, ← hvalue]
    rfl
  · obtain ⟨value, hvalue, hget⟩ := hinner ⟨2⟩ (by decide)
    rw [hget, ← hvalue]
    rfl
  · rw [← Bool.not_eq_true, hunknown]
    decide

end Quill
