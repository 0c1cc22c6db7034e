import Mathlib.Data.List.Forall2
import Quill.Proofs.Evaluation.Regions
import Quill.Proofs.Lines.Relabelling

/-!
# Two runs side by side

Two runs may begin in different states, and what they execute may stand on different lines. Scopes,
objects and identities are numbered as they are made, so what one run makes as its `k`-th the other
run makes as its `k`-th too, and their numbers are at the same distance from the numbers with which
the two runs began (`Aligned`). A `Pairing` says where the two runs began, what the lines of the one
are in the other, and how their sinks go together.

* `Value.Paired`, `Store.Paired`: the same values and stores up to numbers and lines. Every
  operation of the store keeps stores paired, and paired values are displayed alike.
* `Eval.Pairs`: from paired states, two actions come to paired results in paired states, or stop for
  the same reason on lines that go together. This is kept by putting actions together
  (`Pairs.bind`), and the actions of the machine have it.
-/

namespace Quill

/-! ## Numbers and lines -/

/-- The fault on another line. -/
def Fault.mapLine (f : Nat → Nat) (fault : Fault) : Fault := { fault with line := f fault.line }

/-- The stop, a fault of the program on another line. -/
def Stop.mapLine (f : Nat → Nat) : Stop → Stop
  | .fault found => .fault (found.mapLine f)
  | .sink found => .sink found
  | .unfinished => .unfinished

/-- Two numbers at the same distance from their starts. -/
def Aligned (start start' i j : Nat) : Prop := ∃ k, i = start + k ∧ j = start' + k

namespace Aligned

variable {start start' i i' j j' : Nat}

/-- Both starts are at no distance. -/
theorem start_start : Aligned start start' start start' := ⟨0, rfl, rfl⟩

/-- The next numbers are at the same distance too. -/
theorem succ (h : Aligned start start' i j) : Aligned start start' (i + 1) (j + 1) := by
  obtain ⟨k, rfl, rfl⟩ := h
  exact ⟨k + 1, rfl, rfl⟩

/-- The first number is not below its start. -/
theorem le (h : Aligned start start' i j) : start ≤ i := by
  obtain ⟨k, rfl, -⟩ := h
  exact Nat.le_add_right _ _

/-- The second number is not below its start. -/
theorem le' (h : Aligned start start' i j) : start' ≤ j := by
  obtain ⟨k, -, rfl⟩ := h
  exact Nat.le_add_right _ _

/-- What are the same numbers on one side are the same ones on the other. -/
theorem eq_iff (h : Aligned start start' i j) (h' : Aligned start start' i' j') :
    i = i' ↔ j = j' := by
  obtain ⟨k, rfl, rfl⟩ := h
  obtain ⟨k', rfl, rfl⟩ := h'
  omega

/-- What are smaller numbers on one side are smaller ones on the other. -/
theorem lt_iff (h : Aligned start start' i j) (h' : Aligned start start' i' j') :
    i < i' ↔ j < j' := by
  obtain ⟨k, rfl, rfl⟩ := h
  obtain ⟨k', rfl, rfl⟩ := h'
  omega

end Aligned

/-- A relation goes through two choices that are made alike. -/
theorem rel_ite {α β : Type} {R : α → β → Prop} {p q : Prop} [Decidable p] [Decidable q]
    {a b : α} {a' b' : β} (hpq : p ↔ q) (h₁ : R a a') (h₂ : R b b') :
    R (if p then a else b) (if q then a' else b') := by
  by_cases hp : p
  · rw [if_pos hp, if_pos (hpq.1 hp)]
    exact h₁
  · rw [if_neg hp, if_neg (fun hq => hp (hpq.2 hq))]
    exact h₂

/-- How many scopes, objects and identities have been made. -/
structure Marks where
  /-- The number of scopes. -/
  scopes : Nat
  /-- The number of objects. -/
  objects : Nat
  /-- The number of identities. -/
  identities : Nat

/-- What has been made in a store. -/
def Store.marks (s : Store) : Marks := ⟨s.scopes.size, s.objects.size, s.identities⟩

/-- Two runs that go together. -/
structure Pairing where
  /-- The line in the second run for a line in the first. -/
  line : Nat → Nat
  /-- What had been made when the first run began. -/
  left : Marks
  /-- What had been made when the second run began. -/
  right : Marks
  /-- The sinks go together. -/
  sinks : Sink → Sink → Prop
  /-- Sinks that go together take the same bytes, and go together after that. -/
  write : ∀ {sink sink' : Sink}, sinks sink sink' → ∀ bytes : ByteArray,
    (sink'.write bytes).2 = (sink.write bytes).2 ∧
      sinks (sink.write bytes).1 (sink'.write bytes).1
  /-- Sinks that go together pass on what they have taken, or both do not. -/
  flush : ∀ {sink sink' : Sink}, sinks sink sink' → sink'.flushFault? = sink.flushFault?

variable {P : Pairing}

namespace Pairing

/-- The scopes are the same one up to the start. -/
def Scopes (P : Pairing) (id id' : ScopeId) : Prop :=
  Aligned P.left.scopes P.right.scopes id.index id'.index

/-- The objects are the same one up to the start. -/
def Objects (P : Pairing) (id id' : ObjectId) : Prop :=
  Aligned P.left.objects P.right.objects id.index id'.index

/-- The identities are the same one up to the start. -/
def Identities (P : Pairing) (identity identity' : Nat) : Prop :=
  Aligned P.left.identities P.right.identities identity identity'

end Pairing

/-! ## Values -/

/-- The functions are the same up to numbers and lines. -/
structure FunctionValue.Paired (P : Pairing) (f f' : FunctionValue) : Prop where
  identity : P.Identities f.identity f'.identity
  declaration : f'.declaration = f.declaration.mapLines P.line
  closure : P.Scopes f.closure f'.closure

/-- The classes are the same up to numbers and lines. -/
structure ClassValue.Paired (P : Pairing) (c c' : ClassValue) : Prop where
  identity : P.Identities c.identity c'.identity
  declaration : c'.declaration = c.declaration.mapLines P.line
  scope : P.Scopes c.scope c'.scope

/-- The values are the same up to numbers and lines. -/
inductive Value.Paired (P : Pairing) : Value → Value → Prop
  | nil : Paired P .nil .nil
  | boolean (b : Bool) : Paired P (.boolean b) (.boolean b)
  | number (n : Number) : Paired P (.number n) (.number n)
  | string (s : String) : Paired P (.string s) (.string s)
  | function {f f' : FunctionValue} (h : f.Paired P f') : Paired P (.function f) (.function f')
  | classValue {c c' : ClassValue} (h : c.Paired P c') : Paired P (.classValue c) (.classValue c')
  | object {id id' : ObjectId} (h : P.Objects id id') : Paired P (.object id) (.object id')

namespace Value.Paired

variable {v v' w w' : Value}

/-- A literal has paired values. -/
theorem ofLiteral (value : Literal) : Paired P (.ofLiteral value) (.ofLiteral value) := by
  cases value with
  | number n => exact .number n
  | string s => exact .string s
  | boolean b => exact .boolean b
  | nil => exact .nil

/-- Paired values count as true alike. -/
theorem isTruthy_eq (h : v.Paired P v') : v'.isTruthy = v.isTruthy := by
  cases h with
  | _ => rfl

/-- Equality does not tell how many functions, classes and objects were made before the run. -/
theorem same_eq (h : v.Paired P v') (hw : w.Paired P w') : v'.same w' = v.same w := by
  cases h with
  | function h =>
    cases hw with
    | function hw => simpa [Value.same] using (h.identity.eq_iff hw.identity).symm
    | _ => rfl
  | classValue h =>
    cases hw with
    | classValue hw => simpa [Value.same] using (h.identity.eq_iff hw.identity).symm
    | _ => rfl
  | @object id id' h =>
    cases hw with
    | @object other other' hw =>
      obtain ⟨i⟩ := id
      obtain ⟨i'⟩ := id'
      obtain ⟨j⟩ := other
      obtain ⟨j'⟩ := other'
      simpa [Value.same] using (h.eq_iff hw).symm
    | _ => rfl
  | _ =>
    cases hw with
    | _ => rfl

end Value.Paired

namespace ClassValue.Paired

variable {c c' : ClassValue} (h : c.Paired P c')

include h

/-- Paired classes have the same name. -/
theorem name_eq : c'.name = c.name := by
  rw [ClassValue.name, h.declaration, ClassDecl.name_mapLines]
  rfl

/-- Methods are found by their names. -/
theorem method?_eq (name : String) :
    c'.method? name = (c.method? name).map (FunctionDecl.mapLines P.line) := by
  have htest : (fun method : FunctionDecl => method.name.text == name) ∘
      FunctionDecl.mapLines P.line = fun method => method.name.text == name := by
    funext method
    simp
  unfold ClassValue.method?
  rw [h.declaration, ClassDecl.methods_mapLines, ← List.map_reverse, List.find?_map, htest]

/-- Paired classes take as many arguments. -/
theorem arity_eq : c'.arity = c.arity := by
  unfold ClassValue.arity ClassValue.initializer?
  rw [h.method?_eq]
  cases c.method? initializerName with
  | none => rfl
  | some method => exact FunctionDecl.arity_mapLines _ _

end ClassValue.Paired

/-! ## Stores -/

/-- The objects have the same class and fields. -/
structure Object.Paired (P : Pairing) (o o' : Object) : Prop where
  classOf : o.classOf.Paired P o'.classOf
  field : ∀ name, Option.Rel (Value.Paired P) (o.fields.get? name) (o'.fields.get? name)

/-- What the two runs have made is the same. -/
structure Store.Paired (P : Pairing) (s s' : Store) : Prop where
  scopes : Aligned P.left.scopes P.right.scopes s.scopes.size s'.scopes.size
  objects : Aligned P.left.objects P.right.objects s.objects.size s'.objects.size
  identities : P.Identities s.identities s'.identities
  own : ∀ {id id'}, P.Scopes id id' → ∀ name,
    Option.Rel (Value.Paired P) (s.own? id name) (s'.own? id' name)
  enclosing : ∀ {id id'}, P.Scopes id id' →
    List.Forall₂ P.Scopes (s.enclosing id) (s'.enclosing id')
  object : ∀ {id id'}, P.Objects id id' →
    Option.Rel (Object.Paired P) (s.object? id) (s'.object? id')

namespace Store.Paired

variable {s s' : Store} (h : s.Paired P s')

include h

/-! ### Looking up -/

/-- Paired scopes have chains of paired scopes. -/
theorem chain {id id' : ScopeId} (hid : P.Scopes id id') :
    List.Forall₂ P.Scopes (s.chain id) (s'.chain id') :=
  .cons hid (h.enclosing hid)

/-- A name has paired values from paired scopes. -/
theorem get? {id id' : ScopeId} (hid : P.Scopes id id') (name : String) :
    Option.Rel (Value.Paired P) (s.get? id name) (s'.get? id' name) := by
  unfold Store.get?
  have hchain := h.chain hid
  generalize s.chain id = scopes at hchain
  generalize s'.chain id' = scopes' at hchain
  induction hchain with
  | nil => exact .none
  | @cons outer outer' rest rest' houter _ ih =>
    have hown := h.own houter name
    rw [List.findSome?_cons, List.findSome?_cons]
    generalize s.own? outer name = found at hown
    generalize s'.own? outer' name = found' at hown
    cases hown with
    | some hv => exact .some hv
    | none => exact ih

/-- A name is bound in paired scopes of chains that begin with paired ones. -/
theorem owner? {id id' : ScopeId} (hid : P.Scopes id id') (name : String) :
    Option.Rel P.Scopes (s.owner? id name) (s'.owner? id' name) := by
  unfold Store.owner?
  have hchain := h.chain hid
  generalize s.chain id = scopes at hchain
  generalize s'.chain id' = scopes' at hchain
  induction hchain with
  | nil => exact .none
  | @cons outer outer' rest rest' houter _ ih =>
    have hown := h.own houter name
    rw [List.find?_cons, List.find?_cons]
    generalize s.own? outer name = found at hown
    generalize s'.own? outer' name = found' at hown
    cases hown with
    | some hv => exact .some houter
    | none => exact ih

/-- Paired objects have classes of the same name. -/
theorem className_eq {id id' : ObjectId} (hid : P.Objects id id') :
    s'.className id' = s.className id := by
  have hobject := h.object hid
  unfold Store.className
  generalize s.object? id = found at hobject
  generalize s'.object? id' = found' at hobject
  cases hobject with
  | some ho => exact ho.classOf.name_eq
  | none => rfl

/-- What is shown of a value tells neither its number nor a line. -/
theorem display_eq {v v' : Value} (hv : v.Paired P v') : s'.display v' = s.display v := by
  cases hv with
  | function hf => simp [Store.display, hf.declaration]
  | classValue hc => simp [Store.display, hc.name_eq]
  | object hid => simp [Store.display, h.className_eq hid]
  | boolean b =>
    cases b with
    | _ => rfl
  | _ => rfl

/-! ### Changing -/

/-- Binding a name to paired values keeps stores paired. -/
theorem define {id id' : ScopeId} (hid : P.Scopes id id') (name : String) {v v' : Value}
    (hv : v.Paired P v') : (s.define id name v).Paired P (s'.define id' name v') where
  scopes := by simpa using h.scopes
  objects := h.objects
  identities := h.identities
  own := by
    intro other other' hother key
    rw [Store.own?_define, Store.own?_define]
    apply rel_ite
    · rw [hid.eq_iff hother, hother.lt_iff h.scopes]
    · exact .some hv
    · exact h.own hother key
  enclosing := by
    intro other other' hother
    rw [Store.enclosing_define, Store.enclosing_define]
    exact h.enclosing hother
  object := h.object

/-- Binding names to paired values keeps stores paired. -/
theorem defineAll {id id' : ScopeId} (hid : P.Scopes id id') (names : List String)
    {values values' : List Value} (hvalues : List.Forall₂ (Value.Paired P) values values') :
    (s.defineAll id (names.zip values)).Paired P (s'.defineAll id' (names.zip values')) := by
  induction names generalizing s s' values values' with
  | nil => exact h
  | cons name rest ih =>
    cases hvalues with
    | nil => exact h
    | cons hv hvalues => exact ih (h.define hid name hv) hvalues

/-- New scopes inside of paired ones keep stores paired. -/
theorem addScope {around around' : List ScopeId} (haround : List.Forall₂ P.Scopes around around') :
    (s.addScope around).2.Paired P (s'.addScope around').2 where
  scopes := by simpa using h.scopes.succ
  objects := h.objects
  identities := h.identities
  own := by
    intro id id' hid name
    rw [Store.own?_addScope_eq, Store.own?_addScope_eq]
    apply rel_ite (hid.eq_iff h.scopes)
    · exact .none
    · exact h.own hid name
  enclosing := by
    intro id id' hid
    rw [Store.enclosing_addScope_eq, Store.enclosing_addScope_eq]
    apply rel_ite (hid.eq_iff h.scopes)
    · exact haround
    · exact h.enclosing hid
  object := h.object

/-- New scopes inside of a paired scope keep stores paired. -/
theorem addChild {parent parent' : ScopeId} (hparent : P.Scopes parent parent') :
    (s.addChild parent).2.Paired P (s'.addChild parent').2 :=
  h.addScope (h.chain hparent)

/-- New objects of paired classes keep stores paired. -/
theorem addObject {c c' : ClassValue} (hc : c.Paired P c') :
    (s.addObject c).2.Paired P (s'.addObject c').2 where
  scopes := h.scopes
  objects := by simpa [Store.addObject] using h.objects.succ
  identities := h.identities
  own := h.own
  enclosing := h.enclosing
  object := by
    intro id id' hid
    simp only [Store.object?, Store.addObject, Array.getElem?_push]
    apply rel_ite (hid.eq_iff h.objects)
    · exact .some ⟨hc, fun _ => .none⟩
    · exact h.object hid

/-- Setting a field of paired objects to paired values keeps stores paired. -/
theorem setField {id id' : ObjectId} (hid : P.Objects id id') (name : String) {v v' : Value}
    (hv : v.Paired P v') : (s.setField id name v).Paired P (s'.setField id' name v') where
  scopes := h.scopes
  objects := by simpa [Store.setField] using h.objects
  identities := h.identities
  own := h.own
  enclosing := h.enclosing
  object := by
    intro other other' hother
    have hobject := h.object hother
    simp only [Store.object?, Store.setField, Array.getElem?_modify] at hobject ⊢
    generalize s.objects[other.index]? = found at hobject
    generalize s'.objects[other'.index]? = found' at hobject
    apply rel_ite (hid.eq_iff hother)
    · cases hobject with
      | none => exact .none
      | some ho =>
        apply Option.Rel.some
        refine ⟨ho.classOf, fun key => ?_⟩
        rw [Bindings.get?_insert, Bindings.get?_insert]
        exact rel_ite Iff.rfl (.some hv) (ho.field key)
    · exact hobject

/-- Taking an identity keeps stores paired. -/
theorem addIdentity : s.addIdentity.2.Paired P s'.addIdentity.2 where
  scopes := h.scopes
  objects := h.objects
  identities := h.identities.succ
  own := h.own
  enclosing := h.enclosing
  object := h.object

/-- A function and the same one on other lines, closing over paired scopes, are paired. -/
theorem addFunction (f : FunctionDecl) {closure closure' : ScopeId}
    (hclosure : P.Scopes closure closure') :
    (s.addFunction f closure).1.Paired P (s'.addFunction (f.mapLines P.line) closure').1
      ∧ (s.addFunction f closure).2.Paired P (s'.addFunction (f.mapLines P.line) closure').2 :=
  ⟨⟨h.identities, rfl, hclosure⟩, h.addIdentity⟩

/-- A class and the same one on other lines, closing over paired scopes, are paired. -/
theorem addClass (c : ClassDecl) {scope scope' : ScopeId} (hscope : P.Scopes scope scope') :
    (s.addClass c scope).1.Paired P (s'.addClass (c.mapLines P.line) scope').1
      ∧ (s.addClass c scope).2.Paired P (s'.addClass (c.mapLines P.line) scope').2 :=
  ⟨⟨h.identities, rfl, hscope⟩, h.addIdentity⟩

/-- A method bound to paired objects is paired with the same one on other lines. -/
theorem bindMethod {c c' : ClassValue} (hc : c.Paired P c') (method : FunctionDecl)
    {receiver receiver' : ObjectId} (hreceiver : P.Objects receiver receiver') :
    (s.bindMethod c method receiver).1.Paired P
        (s'.bindMethod c' (method.mapLines P.line) receiver').1
      ∧ (s.bindMethod c method receiver).2.Paired P
        (s'.bindMethod c' (method.mapLines P.line) receiver').2 := by
  have hscope : P.Scopes (s.addChild c.scope).1 (s'.addChild c'.scope).1 := h.scopes
  have hbound := (h.addChild hc.scope).define hscope receiverName (.object hreceiver)
  exact hbound.addFunction method hscope

end Store.Paired

namespace Store

variable {s : Store} {id : ScopeId}

/-- From a new global scope on, nothing is bound. -/
theorem own?_addGlobal (h : s.scopes.size ≤ id.index) (name : String) :
    s.addGlobal.2.own? id name = none := by
  have hnone : s.own? id name = none := by rw [own?, Array.getElem?_eq_none h]
  rw [addGlobal, own?_addScope_eq, hnone, ite_self]

/-- From a new global scope on, nothing is around a scope. -/
theorem enclosing_addGlobal (h : s.scopes.size ≤ id.index) : s.addGlobal.2.enclosing id = [] := by
  have hnone : s.enclosing id = [] := by rw [enclosing, Array.getElem?_eq_none h]
  rw [addGlobal, enclosing_addScope_eq, hnone, ite_self]

end Store

/-! ## States -/

/-- The states are the same up to numbers and lines, and their sinks go together. -/
structure Machine.Paired (P : Pairing) (m m' : Machine) : Prop where
  store : m.store.Paired P m'.store
  scope : P.Scopes m.scope m'.scope
  depth : m'.depth = m.depth
  sink : P.sinks m.sink m'.sink

namespace Machine.Paired

variable {m m' : Machine} (h : m.Paired P m')

include h

/-- States with paired stores are paired. -/
theorem withStore {s s' : Store} (hstore : s.Paired P s') :
    Machine.Paired P { m with store := s } { m' with store := s' } where
  store := hstore
  scope := h.scope
  depth := h.depth
  sink := h.sink

/-- Both runs may change to paired scopes. -/
theorem withScope {id id' : ScopeId} (hid : P.Scopes id id') :
    Machine.Paired P { m with scope := id } { m' with scope := id' } where
  store := h.store
  scope := hid
  depth := h.depth
  sink := h.sink

/-- The bodies of paired functions start in paired states. -/
theorem entering {f f' : FunctionValue} (hf : f.Paired P f') {arguments arguments' : List Value}
    (harguments : List.Forall₂ (Value.Paired P) arguments arguments') :
    (m.entering f arguments).Paired P (m'.entering f' arguments') where
  store := by
    have hnew : P.Scopes (m.store.addChild f.closure).1 (m'.store.addChild f'.closure).1 :=
      h.store.scopes
    have hnames : f'.declaration.params.map Name.text = f.declaration.params.map Name.text := by
      simp [hf.declaration]
    unfold Machine.entering
    rw [hnames]
    exact (h.store.addChild hf.closure).defineAll hnew _ harguments
  scope := h.store.scopes
  depth := congrArg (· + 1) h.depth
  sink := h.sink

/-- The innermost scope and the number of open calls are set back on both sides. -/
theorem leaving {n n' : Machine} (hn : n.Paired P n') :
    Machine.Paired P { n with scope := m.scope, depth := n.depth - 1 }
      { n' with scope := m'.scope, depth := n'.depth - 1 } where
  store := hn.store
  scope := h.scope
  depth := congrArg (· - 1) hn.depth
  sink := hn.sink

end Machine.Paired

/-! ## Actions -/

namespace Eval

variable {α α' β β' : Type}

/-- The results are the same up to numbers and lines. -/
inductive PairedResult (P : Pairing) (R : α → α' → Prop) :
    EStateM.Result Stop Machine α → EStateM.Result Stop Machine α' → Prop
  | ok {a : α} {a' : α'} {m m' : Machine} (h : R a a') (hm : m.Paired P m') :
      PairedResult P R (.ok a m) (.ok a' m')
  | error (stop : Stop) {m m' : Machine} (hm : m.Paired P m') :
      PairedResult P R (.error stop m) (.error (stop.mapLine P.line) m')

/-- From paired states the actions come to paired results. -/
def Pairs (P : Pairing) (R : α → α' → Prop) (x : Eval α) (y : Eval α') : Prop :=
  ∀ ⦃m m' : Machine⦄, m.Paired P m' → PairedResult P R (x m) (y m')

variable {R : α → α' → Prop} {S : β → β' → Prop} {x : Eval α} {y : Eval α'}

/-- Paired values are paired results. -/
theorem pairs_pure {a : α} {a' : α'} (h : R a a') : Pairs P R (pure a) (pure a') :=
  fun _ _ hm => .ok h hm

/-- Stops on lines that go together are paired results. -/
theorem pairs_throw (stop : Stop) :
    Pairs P R (throw stop : Eval α) (throw (stop.mapLine P.line) : Eval α') :=
  fun _ _ hm => .error stop hm

/-- Faults on lines that go together are paired results. -/
theorem pairs_fail (cause : FaultCause) (line : Nat) :
    Pairs P R (fail cause line : Eval α) (fail cause (P.line line) : Eval α') :=
  pairs_throw (.fault ⟨cause, line⟩)

/-- Sequences are paired if their parts are, the rests for paired values. -/
theorem Pairs.bind {f : α → Eval β} {g : α' → Eval β'} (hx : Pairs P R x y)
    (hf : ∀ {a a'}, R a a' → Pairs P S (f a) (g a')) : Pairs P S (x >>= f) (y >>= g) := by
  intro m m' hm
  have hfirst := hx hm
  generalize hread : x m = result at hfirst
  generalize hread' : y m' = result' at hfirst
  cases hfirst with
  | ok h hn =>
    rw [bind_eq_of_ok hread, bind_eq_of_ok hread']
    exact hf h hn
  | error stop hn =>
    rw [bind_eq_of_error hread, bind_eq_of_error hread']
    exact .error stop hn

/-- What follows may look at the state first. -/
theorem pairs_bind_get {f : Machine → Eval β} {g : Machine → Eval β'}
    (hf : ∀ {m m'}, m.Paired P m' → PairedResult P S (f m m) (g m' m')) :
    Pairs P S (get >>= f) (get >>= g) :=
  fun _ _ hm => hf hm

/-- Choices that are made alike are paired if both ways are. -/
theorem pairs_ite {p q : Prop} [Decidable p] [Decidable q] {x₁ x₂ : Eval α} {y₁ y₂ : Eval α'}
    (hpq : p ↔ q) (h₁ : Pairs P R x₁ y₁) (h₂ : Pairs P R x₂ y₂) :
    Pairs P R (if p then x₁ else x₂) (if q then y₁ else y₂) :=
  rel_ite hpq h₁ h₂

/-- Changes to the store are paired if they keep stores paired. -/
theorem pairs_withStore {f : Store → α × Store} {g : Store → α' × Store}
    (hf : ∀ {s s'}, s.Paired P s' → R (f s).1 (g s').1 ∧ (f s).2.Paired P (g s').2) :
    Pairs P R (withStore f) (withStore g) := by
  intro m m' hm
  obtain ⟨hvalue, hstore⟩ := hf hm.store
  exact .ok hvalue (hm.withStore hstore)

/-- New scopes inside of paired ones are paired. -/
theorem pairs_newScope {parent parent' : ScopeId} (h : P.Scopes parent parent') :
    Pairs P P.Scopes (newScope parent) (newScope parent') := by
  apply pairs_withStore
  intro s s' hs
  exact ⟨hs.scopes, hs.addChild h⟩

/-- A variable is read alike in paired states. -/
theorem pairs_readVariable (name : String) (line : Nat) :
    Pairs P (Value.Paired P) (readVariable name line) (readVariable name (P.line line)) := by
  intro m m' hm
  have hget := hm.store.get? hm.scope name
  unfold readVariable
  generalize m.store.get? m.scope name = found at hget
  generalize m'.store.get? m'.scope name = found' at hget
  cases hget with
  | some hv => exact .ok hv hm
  | none => exact .error (.fault ⟨.undefinedVariable name, line⟩) hm

/-- A variable is assigned to alike in paired states. -/
theorem pairs_writeVariable (name : String) {v v' : Value} (hv : v.Paired P v') (line : Nat) :
    Pairs P Eq (writeVariable name v line) (writeVariable name v' (P.line line)) := by
  intro m m' hm
  have howner := hm.store.owner? hm.scope name
  rw [writeVariable_eq, writeVariable_eq]
  generalize m.store.owner? m.scope name = found at howner
  generalize m'.store.owner? m'.scope name = found' at howner
  cases howner with
  | some hid => exact .ok rfl (hm.withStore (hm.store.define hid name hv))
  | none => exact .error (.fault ⟨.undefinedVariable name, line⟩) hm

/-- A variable is declared alike in paired states. -/
theorem pairs_declareVariable (name : String) {v v' : Value} (hv : v.Paired P v') :
    Pairs P Eq (declareVariable name v) (declareVariable name v') :=
  fun _ _ hm => .ok rfl (hm.withStore (hm.store.define hm.scope name hv))

/-- Actions that are paired are so inside of paired scopes. -/
theorem pairs_inScope {id id' : ScopeId} (hid : P.Scopes id id') (h : Pairs P R x y) :
    Pairs P R (inScope id x) (inScope id' y) := by
  intro m m' hm
  have haction := h (hm.withScope hid)
  unfold inScope
  dsimp only
  generalize x { m with scope := id } = result at haction
  generalize y { m' with scope := id' } = result' at haction
  cases haction with
  | ok ha hn => exact .ok ha (hn.withScope hm.scope)
  | error stop hn => exact .error stop (hn.withScope hm.scope)

/-- Paired values are printed alike. -/
theorem pairs_printLine {v v' : Value} (hv : v.Paired P v') :
    Pairs P Eq (printLine v) (printLine v') := by
  rintro ⟨store, scope, depth, sink⟩ ⟨store', scope', depth', sink'⟩ hm
  obtain ⟨hfault, hsink⟩ := P.write hm.sink (store.display v ++ "\n").toUTF8
  unfold printLine
  dsimp only at hfault hsink ⊢
  rw [hm.store.display_eq hv]
  generalize sink.write (store.display v ++ "\n").toUTF8 = after at hfault hsink ⊢
  generalize sink'.write (store.display v ++ "\n").toUTF8 = after' at hfault hsink ⊢
  obtain ⟨taken, fault⟩ := after
  obtain ⟨taken', fault'⟩ := after'
  obtain rfl : fault' = fault := hfault
  have hafter : Machine.Paired P ⟨store, scope, depth, taken⟩ ⟨store', scope', depth', taken'⟩ :=
    ⟨hm.store, hm.scope, hm.depth, hsink⟩
  cases fault' with
  | none => exact .ok rfl hafter
  | some fault => exact .error (.sink fault) hafter

end Eval

end Quill
