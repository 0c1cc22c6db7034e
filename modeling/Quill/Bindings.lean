/-!
# Bindings

Names with values, at most one value a name. Reading and writing go through `get?` and `insert`,
which are tied together by `get?_insert`.
-/

namespace Quill

/-- Names bound to values. -/
structure Bindings (α : Type) where
  /-- The names in the order of their first binding, with their values. -/
  entries : List (String × α)

namespace Bindings

variable {α : Type}

/-- No name is bound. -/
def empty : Bindings α := ⟨[]⟩

/-- The value in a list of pairs. -/
def find? (name : String) : List (String × α) → Option α
  | [] => none
  | (key, value) :: rest => if key = name then some value else find? name rest

/-- Puts a value into a list of pairs, in its old place or at the end. -/
def put (name : String) (value : α) : List (String × α) → List (String × α)
  | [] => [(name, value)]
  | (key, old) :: rest =>
    if key = name then (key, value) :: rest else (key, old) :: put name value rest

/-- The value of a name. -/
def get? (b : Bindings α) (name : String) : Option α :=
  find? name b.entries

/-- The name is bound. -/
def contains (b : Bindings α) (name : String) : Bool :=
  (b.get? name).isSome

/-- Binds a name, in place of its old value if it has one. -/
def insert (b : Bindings α) (name : String) (value : α) : Bindings α :=
  ⟨put name value b.entries⟩

/-- The bound names. -/
def names (b : Bindings α) : List String :=
  b.entries.map Prod.fst

@[simp] theorem get?_empty (name : String) : (empty : Bindings α).get? name = none := rfl

/-- A name that is put in has its value, and the others keep theirs. -/
theorem find?_put (entries : List (String × α)) (name other : String) (value : α) :
    find? other (put name value entries) =
      if name = other then some value else find? other entries := by
  induction entries with
  | nil => simp [put, find?]
  | cons entry rest ih =>
    obtain ⟨key, old⟩ := entry
    by_cases hk : key = name
    · subst hk
      by_cases ho : key = other <;> simp [put, find?, ho]
    · by_cases ho : key = other
      · subst ho
        simp [put, find?, hk, Ne.symm hk]
      · simp [put, find?, hk, ho, ih]

/-- What a name is bound to after a binding: the new value for the name itself, the old one for all
others. -/
theorem get?_insert (b : Bindings α) (name other : String) (value : α) :
    (b.insert name value).get? other = if name = other then some value else b.get? other :=
  find?_put b.entries name other value

@[simp] theorem get?_insert_self (b : Bindings α) (name : String) (value : α) :
    (b.insert name value).get? name = some value := by
  simp [get?_insert]

/-- The bound names are those from before and the new one. -/
theorem contains_insert (b : Bindings α) (name other : String) (value : α) :
    (b.insert name value).contains other = (name == other || b.contains other) := by
  by_cases h : name = other <;> simp [contains, get?_insert, h]

end Bindings

end Quill
