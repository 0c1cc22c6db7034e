import Quill.Bindings
import Quill.Text.Quoted
import Quill.Value

/-!
# The store

Scopes and objects are shared: closures, blocks and calls reach the same scope, variables and fields
the same object. They live in a store, by number, and are never removed.

A scope records the scopes around it, nearest first, when it is made. A name is looked up along this
chain; it is assigned where it is found, and declared only in the innermost scope.
-/

namespace Quill

/-- The names that a scope binds, and the scopes around it, nearest first. -/
structure Scope where
  /-- The names bound here. -/
  bindings : Bindings Value
  /-- The scopes around this one. -/
  enclosing : List ScopeId

/-- An object: its class, and its fields so far. -/
structure Object where
  /-- Its class. -/
  classOf : ClassValue
  /-- Its fields. -/
  fields : Bindings Value

/-- All scopes and objects that have been made. -/
structure Store where
  /-- The scopes by number. -/
  scopes : Array Scope
  /-- The objects by number. -/
  objects : Array Object
  /-- The number of identities given to functions and classes. -/
  identities : Nat

namespace Store

/-- Nothing has been made. -/
def empty : Store := ⟨#[], #[], 0⟩

/-! ## Scopes -/

/-- Makes a scope inside others. -/
def addScope (s : Store) (enclosing : List ScopeId) : ScopeId × Store :=
  (⟨s.scopes.size⟩, { s with scopes := s.scopes.push ⟨.empty, enclosing⟩ })

/-- Makes a scope with none around it. -/
def addGlobal (s : Store) : ScopeId × Store :=
  s.addScope []

/-- The scopes around a scope. -/
def enclosing (s : Store) (id : ScopeId) : List ScopeId :=
  match s.scopes[id.index]? with
  | some scope => scope.enclosing
  | none => []

/-- A scope and those around it: where names are looked up, in this order. -/
def chain (s : Store) (id : ScopeId) : List ScopeId :=
  id :: s.enclosing id

/-- Makes a scope directly inside another. -/
def addChild (s : Store) (parent : ScopeId) : ScopeId × Store :=
  s.addScope (s.chain parent)

/-- What a scope itself binds a name to. -/
def own? (s : Store) (id : ScopeId) (name : String) : Option Value :=
  match s.scopes[id.index]? with
  | some scope => scope.bindings.get? name
  | none => none

/-- The nearest scope that binds a name. -/
def owner? (s : Store) (id : ScopeId) (name : String) : Option ScopeId :=
  (s.chain id).find? fun scope => (s.own? scope name).isSome

/-- The value of a name as a scope sees it. -/
def get? (s : Store) (id : ScopeId) (name : String) : Option Value :=
  (s.chain id).findSome? fun scope => s.own? scope name

/-- Binds a name in a scope, in place of its old value there. -/
def define (s : Store) (id : ScopeId) (name : String) (value : Value) : Store :=
  { s with
    scopes := s.scopes.modify id.index fun scope =>
      { scope with bindings := scope.bindings.insert name value } }

/-- Binds names in a scope, one after another. -/
def defineAll (s : Store) (id : ScopeId) : List (String × Value) → Store
  | [] => s
  | (name, value) :: rest => (s.define id name value).defineAll id rest

/-- Gives a name a new value where it is bound, and says whether it is bound at all. -/
def assign (s : Store) (id : ScopeId) (name : String) (value : Value) : Bool × Store :=
  match s.owner? id name with
  | some owner => (true, s.define owner name value)
  | none => (false, s)

/-- A binding changes what its own scope says of its own name, and nothing else. -/
theorem own?_define (s : Store) (id other : ScopeId) (name key : String) (value : Value) :
    (s.define id name value).own? other key =
      if id.index = other.index ∧ other.index < s.scopes.size ∧ name = key then some value
      else s.own? other key := by
  unfold define own?
  rw [Array.getElem?_modify]
  by_cases h : id.index = other.index
  · by_cases hlt : other.index < s.scopes.size
    · by_cases hk : name = key
      · subst hk
        simp [h, hlt]
      · simp [h, hlt, hk, Bindings.get?_insert]
    · simp [h, hlt]
  · simp [h]

/-- Bindings leave the nesting of scopes alone. -/
theorem enclosing_define (s : Store) (id other : ScopeId) (name : String) (value : Value) :
    (s.define id name value).enclosing other = s.enclosing other := by
  unfold define enclosing
  rw [Array.getElem?_modify]
  by_cases h : id.index = other.index
  · cases s.scopes[other.index]? <;> simp [h]
  · simp [h]

/-! ### Scopes before and after -/

section

variable (s : Store) (around : List ScopeId)

/-- What the scopes from before bind does not change with a new scope. -/
theorem own?_addScope {id : ScopeId} (h : id.index < s.scopes.size) (name : String) :
    (s.addScope around).2.own? id name = s.own? id name := by
  simp [addScope, own?, Array.getElem?_push, Nat.ne_of_lt h]

/-- What is around the scopes from before does not change with a new scope. -/
theorem enclosing_addScope {id : ScopeId} (h : id.index < s.scopes.size) :
    (s.addScope around).2.enclosing id = s.enclosing id := by
  simp [addScope, enclosing, Array.getElem?_push, Nat.ne_of_lt h]

/-- A new scope binds nothing. -/
@[simp] theorem own?_addScope_self (name : String) :
    (s.addScope around).2.own? ⟨s.scopes.size⟩ name = none := by
  simp [addScope, own?]

/-- The scopes around a new scope are those that it was made inside of. -/
@[simp] theorem enclosing_addScope_self :
    (s.addScope around).2.enclosing ⟨s.scopes.size⟩ = around := by
  simp [addScope, enclosing]

@[simp] theorem size_addScope : (s.addScope around).2.scopes.size = s.scopes.size + 1 := by
  simp [addScope]

@[simp] theorem size_define (id : ScopeId) (name : String) (value : Value) :
    (s.define id name value).scopes.size = s.scopes.size := by
  simp [define]

/-- Binding a name in a scope changes no other scope. -/
theorem own?_define_of_ne {id other : ScopeId} (h : other ≠ id) (name key : String)
    (value : Value) : (s.define id name value).own? other key = s.own? other key := by
  rw [own?_define, if_neg]
  rintro ⟨hindex, -⟩
  apply h
  obtain ⟨i⟩ := id
  obtain ⟨j⟩ := other
  exact congrArg ScopeId.mk hindex.symm

/-- Binding a name in a scope changes that name there and no other. -/
theorem own?_define_self {id : ScopeId} (h : id.index < s.scopes.size) (name key : String)
    (value : Value) :
    (s.define id name value).own? id key = if name = key then some value else s.own? id key := by
  rw [own?_define]
  simp [h]

@[simp] theorem size_defineAll (id : ScopeId) (bindings : List (String × Value)) :
    (s.defineAll id bindings).scopes.size = s.scopes.size := by
  induction bindings generalizing s with
  | nil => rfl
  | cons binding rest ih => rw [defineAll, ih, size_define]

/-- Binding names in a scope changes no other scope. -/
theorem own?_defineAll_of_ne {id other : ScopeId} (h : other ≠ id) (key : String)
    (bindings : List (String × Value)) :
    (s.defineAll id bindings).own? other key = s.own? other key := by
  induction bindings generalizing s with
  | nil => rfl
  | cons binding rest ih => rw [defineAll, ih, own?_define_of_ne s h]

end

/-! ## Objects and identities -/

/-- Makes an object without fields. -/
def addObject (s : Store) (c : ClassValue) : ObjectId × Store :=
  (⟨s.objects.size⟩, { s with objects := s.objects.push ⟨c, .empty⟩ })

/-- The object of a number. -/
def object? (s : Store) (id : ObjectId) : Option Object :=
  s.objects[id.index]?

/-- Sets a field of an object. -/
def setField (s : Store) (id : ObjectId) (name : String) (value : Value) : Store :=
  { s with
    objects := s.objects.modify id.index fun object =>
      { object with fields := object.fields.insert name value } }

/-- Gives out an identity that nothing has yet. -/
def addIdentity (s : Store) : Nat × Store :=
  (s.identities, { s with identities := s.identities + 1 })

/-- Makes a function. -/
def addFunction (s : Store) (declaration : FunctionDecl) (closure : ScopeId) :
    FunctionValue × Store :=
  let (identity, s) := s.addIdentity
  (⟨identity, declaration, closure⟩, s)

/-- Makes a class. -/
def addClass (s : Store) (declaration : ClassDecl) (scope : ScopeId) : ClassValue × Store :=
  let (identity, s) := s.addIdentity
  (⟨identity, declaration, scope⟩, s)

/-- Makes a method of a class into a function for one object: a scope inside that of the class binds
the receiver and nothing else. -/
def bindMethod (s : Store) (c : ClassValue) (method : FunctionDecl) (receiver : ObjectId) :
    FunctionValue × Store :=
  let (scope, s) := s.addChild c.scope
  let s := s.define scope receiverName (.object receiver)
  s.addFunction method scope

/-! ## Values in words -/

/-- The name of an object's class. -/
def className (s : Store) (id : ObjectId) : String :=
  match s.object? id with
  | some object => object.classOf.name
  | none => ""

/-- A value as it is printed. -/
def display (s : Store) : Value → String
  | .nil => "nil"
  | .boolean true => "true"
  | .boolean false => "false"
  | .number n => n.text
  | .string contents => contents
  | .function f => "<fn " ++ f.declaration.name.text ++ ">"
  | .classValue c => "<class " ++ c.name ++ ">"
  | .object id => "<instance of " ++ s.className id ++ ">"

/-- A value as it is shown to someone who looks closely: texts in quotes. -/
def inspect (s : Store) : Value → String
  | .string contents => Text.quoted contents
  | v => s.display v

/-- Names in ascending order, each once. -/
def sortedNames (names : List String) : List String :=
  names.eraseDups.mergeSort fun a b => decide (a ≤ b)

/-- What a function, class or object consists of; empty for plain values. -/
def detail (s : Store) : Value → String
  | .function f =>
    "Function \x7b name: " ++ Text.quoted f.declaration.name.text ++ ", arity: "
      ++ toString f.declaration.arity ++ " \x7d"
  | .classValue c =>
    "Class \x7b name: " ++ Text.quoted c.name ++ ", methods: "
      ++ Text.quotedList (sortedNames (c.declaration.methods.map fun m => m.name.text)) ++ " \x7d"
  | .object id =>
    let fields := match s.object? id with
      | some object => object.fields.names
      | none => []
    "Instance \x7b class: " ++ Text.quoted (s.className id) ++ ", fields: "
      ++ Text.quotedList (sortedNames fields) ++ " \x7d"
  | _ => ""

end Store

end Quill
