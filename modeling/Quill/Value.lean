import Quill.Tree

/-!
# Values

What expressions evaluate to. Functions, classes and objects have an identity of their own: two of
them are equal only if they are the same one.
-/

namespace Quill

/-- A scope of a store, by its number. Scopes are numbered as they are made. -/
structure ScopeId where
  /-- The number. -/
  index : Nat
deriving DecidableEq

/-- An object of a store, by its number. Objects are numbered as they are made. -/
structure ObjectId where
  /-- The number. -/
  index : Nat
deriving DecidableEq

/-- A function with the scope around its body: the one it was declared in or, for a method, the one
that binds its receiver. -/
structure FunctionValue where
  /-- What tells this function from all others. -/
  identity : Nat
  /-- Its declaration. -/
  declaration : FunctionDecl
  /-- The scope around its body. -/
  closure : ScopeId

/-- A class with the scope it was declared in, which is the scope around all its methods. -/
structure ClassValue where
  /-- What tells this class from all others. -/
  identity : Nat
  /-- Its declaration. -/
  declaration : ClassDecl
  /-- The scope around its methods. -/
  scope : ScopeId

namespace ClassValue

/-- The name of a class. -/
def name (c : ClassValue) : String :=
  c.declaration.name.text

/-- The method of a name; of several, the last one declared. -/
def method? (c : ClassValue) (name : String) : Option FunctionDecl :=
  c.declaration.methods.reverse.find? fun method => method.name.text == name

/-- The method that makes new objects ready. -/
def initializer? (c : ClassValue) : Option FunctionDecl :=
  c.method? initializerName

/-- The number of arguments of a call of the class: those of its initializer. -/
def arity (c : ClassValue) : Nat :=
  (c.initializer?.map FunctionDecl.arity).getD 0

end ClassValue

/-- A value. -/
inductive Value where
  /-- The value that stands for none. -/
  | nil
  /-- A truth value. -/
  | boolean (b : Bool)
  /-- A number. -/
  | number (n : Number)
  /-- A text. -/
  | string (s : String)
  /-- A function. -/
  | function (f : FunctionValue)
  /-- A class. -/
  | classValue (c : ClassValue)
  /-- An object of a class. -/
  | object (id : ObjectId)

/-- The sorts of values. -/
inductive ValueSort where
  | nil
  | boolean
  | number
  | string
  | function
  | classSort
  | object
deriving DecidableEq

namespace ValueSort

/-- The sort in words. -/
def name : ValueSort → String
  | nil => "nil"
  | boolean => "boolean"
  | number => "number"
  | string => "string"
  | function => "function"
  | classSort => "class"
  | object => "instance"

end ValueSort

namespace Value

/-- The value of a constant. -/
def ofLiteral : Literal → Value
  | .number value => number value
  | .string contents => string contents
  | .boolean value => boolean value
  | .nil => nil

/-- The sort of a value. -/
def sort : Value → ValueSort
  | nil => .nil
  | boolean _ => .boolean
  | number _ => .number
  | string _ => .string
  | function _ => .function
  | classValue _ => .classSort
  | object _ => .object

/-- Everything counts as true but the value for none and the truth value false. -/
def isTruthy : Value → Bool
  | nil => false
  | boolean b => b
  | _ => true

/-- Equality as programs see it: plain values by what they are, the others by identity. -/
def same : Value → Value → Bool
  | nil, nil => true
  | boolean a, boolean b => a == b
  | number a, number b => a.same b
  | string a, string b => a == b
  | function a, function b => a.identity == b.identity
  | classValue a, classValue b => a.identity == b.identity
  | object a, object b => a == b
  | _, _ => false

end Value

/-- How a statement ends. -/
inductive Flow where
  /-- The next statement follows. -/
  | normal
  /-- The function is left with a value. -/
  | returned (value : Value)

end Quill
